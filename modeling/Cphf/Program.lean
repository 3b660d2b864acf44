import Cphf.Lsof.Reader
import Cphf.Readers.FileStat
import Cphf.Report

/-! The program: the readers run by `ProcFileEntryBuilder`, and `main` with its options. -/
namespace Cphf
open CLib

/-- `reader_ids`. -/
inductive ReaderId
  | lsof
  | proc
  | filestat
  deriving DecidableEq

/-- `data_digger`. -/
abbrev DataDigger := ReaderId × Text

/-- What surrounds a run: the limit on descriptors, the output of `lsof`, the rest of the system
and the contents of new memory. -/
structure Surroundings where
  rlim_max : Option UInt64
  lsof : LsofAnswer
  sys : System
  fresh : ProcInfo

/-- `ULF_TXT_FD`. -/
def Surroundings.ULF_TXT_FD (env : Surroundings) : UInt64 := init_TxtFD env.rlim_max

/-- The text printed so far, the table of labels and the store. -/
structure Built where
  printed : Text
  attributeFlags : AttributeFlags
  procMap : ProcMap

def Built.init : Built := ⟨[],∅,∅⟩

/-- One round of `ProcFileEntryBuilder::build`. -/
def Built.dig (env : Surroundings) (b : Built) (ddig : DataDigger) : Except Fault Built :=
  match ddig.1 with
  | .lsof =>
    getFilesInfo env.ULF_TXT_FD env.lsof b.procMap >>= fun r =>
      .ok ⟨b.printed ++ r.1,createAttribMap LSOFReader.ids b.attributeFlags,r.2⟩
  | .proc =>
    ProcReader.do_read env.sys env.fresh ddig.2 b.procMap >>= fun r =>
      .ok ⟨b.printed ++ r.1,createAttribMap ProcReader.ids b.attributeFlags,r.2⟩
  | .filestat =>
    FileStatReader.do_read env.sys env.ULF_TXT_FD ddig.2 b.procMap >>= fun m =>
      .ok ⟨b.printed,createAttribMap FileStatReader.ids b.attributeFlags,m⟩

/-- `ProcFileEntryBuilder::build`. -/
def build (env : Surroundings) (diggers : List DataDigger) : Except Fault Built :=
  run (Built.dig env) Built.init diggers

/-- The argument that switches a reader off. -/
def NO : Text := "no".toList

/-- `checkOptions`: whether all flags are known, and the text printed. -/
def checkOptions (defaults options cmd : Text) : Bool × Text :=
  if options = NO then (true,[])
  else (options.all (· ∈ defaults),(options.filter (· ∉ defaults)).flatMap fun c =>
    "ERROR: option ".toList ++ c :: " is not a recognized ".toList ++ cmd ++ " flag\n".toList)

/-- What `getopt_long` returns besides `-1`: an option of `"p:f:"`, or an error. -/
inductive OptionCode
  | proc
  | file
  | error
  deriving DecidableEq

def OptionCode.value : OptionCode → ℤ
  | proc => 'p'.toNat
  | file => 'f'.toNat
  | error => '?'.toNat

structure GetoptAnswer where
  code : OptionCode
  optarg : Text
  deriving DecidableEq

/-- The variables the option loop sets. -/
structure MainOptions where
  proc_ops : Text
  file_ops : Text
  flagsOkay : Bool
  printed : Text

def MainOptions.init : MainOptions := ⟨PROC_OPTS_DEFAULT,FILESTAT_OPTS_DEFAULT,true,[]⟩

/-- The switch on an option. -/
def MainOptions.switch (o : MainOptions) (opt : ℤ) (optarg : Text) : MainOptions :=
  if opt = 'p'.toNat then
    let check := checkOptions PROC_OPTS_DEFAULT optarg "proc".toList
    ⟨optarg,o.file_ops,check.1,o.printed ++ check.2⟩
  else if opt = 'f'.toNat then
    let check := checkOptions FILESTAT_OPTS_DEFAULT optarg "file".toList
    ⟨o.proc_ops,optarg,check.1,o.printed ++ check.2⟩
  else o

/-- The value a `char` holds after an `int` is stored in it. -/
def asChar (charSigned : Bool) (v : ℤ) : ℤ := if charSigned then v.bmod (2^8) else v % 2^8

/-- The option loop, which stores each result in a `char`; after its answers `getopt_long`
returns `-1` for ever. Nothing when it has not ended within the given number of calls. -/
def optionLoop (charSigned : Bool) : ℕ → List GetoptAnswer → MainOptions → Option MainOptions
  | 0,_,_ => none
  | n+1,[],o =>
    let opt := asChar charSigned (-1)
    if opt ≠ -1 then optionLoop charSigned n [] (o.switch opt []) else some o
  | n+1,a :: answers,o =>
    let opt := asChar charSigned a.code.value
    if opt ≠ -1 then optionLoop charSigned n answers (o.switch opt a.optarg) else some o

/-- `funcvector`. -/
def MainOptions.funcvector (o : MainOptions) : List DataDigger :=
  if o.flagsOkay then
    (.lsof,LSOF_OPTS_DEFAULT) ::
      ((if o.proc_ops ≠ NO then [(.proc,o.proc_ops)] else []) ++
        if o.file_ops ≠ NO then [(.filestat,o.file_ops)] else [])
  else []

/-- The readers that `main` lets `build` run. -/
def MainOptions.readersRun (o : MainOptions) : List DataDigger :=
  if o.funcvector.length ≠ 1 then o.funcvector else []

/-- `procs` and `files`. -/
def MainOptions.procs (o : MainOptions) : Bool := !(o.flagsOkay && o.proc_ops = NO)

def MainOptions.files (o : MainOptions) : Bool := !(o.flagsOkay && o.file_ops = NO)

/-- `main` after its option loop: the store built, and the queue handed to `printFiles`. -/
def MainOptions.runReaders (env : Surroundings) (o : MainOptions) :
    Except Fault (Built × List CphfFile) :=
  build env o.readersRun >>= fun b => .ok (b,flattenMap b.procMap o.procs o.files)

/-- `main`: everything it prints, when its option loop ends within `n` calls. -/
def main (charSigned : Bool) (env : Surroundings) (n : ℕ) (answers : List GetoptAnswer) :
    Option (Except Fault Text) :=
  (optionLoop charSigned n answers MainOptions.init).map fun o =>
    o.runReaders env >>= fun r =>
      printFiles r.1.attributeFlags r.2 >>= fun t => .ok (o.printed ++ r.1.printed ++ t)

end Cphf
