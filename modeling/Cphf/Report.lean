import Cphf.Store

/-! The report: the table of labels and `PrettyPrinter::printFiles`. -/
namespace Cphf
open CLib

/-- `CPHFFile::attributeFlags`. -/
abbrev AttributeFlags := OMap CphfId Text

/-- The insertions of a `do_createAttribMap`: each identifier with its own label. -/
def createAttribMap (ids : List CphfId) (attribFlags : AttributeFlags) : AttributeFlags :=
  ids.foldl (fun m i => m.insertNew i i.label) attribFlags

/-- The identifiers `LSOFReader` registers. -/
def LSOFReader.ids : List CphfId := [.fd,.flags,.pid]

/-- The identifiers `ProcReader` registers. -/
def ProcReader.ids : List CphfId :=
  [.cmd,.ppid,.procgid,.loginname,.uid,.ugidName,.ugid,.pstartTime,.pcpuTime,.device,.pvms,.prss,
    .textRegion,.dataRegion,.stackRegion,.epi,.perms,.pstate]

/-- The identifiers `FileStatReader` registers. -/
def FileStatReader.ids : List CphfId :=
  [.filename,.inode,.uid,.ugid,.filemode,.accessT,.modT,.statChangeT,.device,.pid,.filesize,.perms]

/-- `%-Ns`. -/
def padded (width : ℕ) (s : Text) : Text := s ++ List.replicate (width - s.length) ' '

/-- `do_printAttributes`: a label that is missing makes `at` throw. -/
def printAttributes (attributeFlags : AttributeFlags) (prettyprinter : Text → Text → Text) :
    List CphfAttribute → Except Fault Text
  | [] => .ok []
  | a :: l =>
    match attributeFlags.find? a.1 with
    | none => .error .outOfRange
    | some label =>
      printAttributes attributeFlags prettyprinter l >>= fun t =>
        .ok (prettyprinter label a.2 ++ t)

def procLine (label value : Text) : Text :=
  padded 23 (c_str label) ++ "  ".toList ++ c_str value ++ ['\n']

def fileLine (label value : Text) : Text :=
  '\t' :: padded 25 (c_str label) ++ "  ".toList ++ c_str value ++ ['\n']

/-- The line of 80 `=` in front of a process. -/
def separator : Text := List.replicate 80 '='

/-- One object of the queue. -/
def printFile (attributeFlags : AttributeFlags) : CphfFile → Except Fault Text
  | .proc pf =>
    printAttributes attributeFlags procLine pf.attributes >>= fun t =>
      .ok (separator ++ '\n' :: t ++ ['\n'])
  | .file ulf =>
    printAttributes attributeFlags fileLine ulf.attributes >>= fun t => .ok (t ++ ['\n'])

/-- `PrettyPrinter::printFiles`. -/
def printFiles (attributeFlags : AttributeFlags) : List CphfFile → Except Fault Text
  | [] => .ok []
  | f :: queue =>
    printFile attributeFlags f >>= fun t =>
      printFiles attributeFlags queue >>= fun t' => .ok (t ++ t')

end Cphf
