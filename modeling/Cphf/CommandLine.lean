import Cphf.OptionLoop
import Cphf.Readers.Options

/-! What a bad flag on the command line does. Each option overwrites the verdict on the one
before it, so only the last option given can stop the run. -/
namespace Cphf
open CLib

section
variable {α β : Type}

/-- A computation that does not stop for want of an attribute identifier. -/
def SetsIds (x : Except Fault α) : Prop := ∀ printed, x ≠ .error (.unsetAttribute printed)

theorem setsIds_ok (a : α) : SetsIds (.ok a) := fun _ h => by cases h

theorem SetsIds.bind {x : Except Fault α} {f : α → Except Fault β} (hx : SetsIds x)
    (hf : ∀ a, SetsIds (f a)) : SetsIds (x >>= f) := by
  cases x with
  | ok a => exact hf a
  | error e => exact fun p h => hx p (congrArg Except.error (Except.error.inj h))

lemma setsIds_mapError (x : Except BlockFault α) : SetsIds (x.mapError Fault.ofBlock) := by
  cases x with
  | ok a => exact setsIds_ok a
  | error e => cases e <;> intro p h <;> cases h

end

section
variable (sys : System)

lemma readLocalTime_setsIds (t : ℤ) (fmt : Text) : SetsIds (readLocalTime sys t fmt) := by
  unfold readLocalTime
  split
  · intro p h
    cases h
  · split <;> exact setsIds_ok _

lemma readDriver_setsIds (fsin : Text) : SetsIds (readDriver fsin) := by
  unfold readDriver
  split
  · exact setsIds_ok _
  · split
    · exact setsIds_ok _
    · split
      · intro p h
        cases h
      · exact setsIds_ok _

lemma buildDeviceMapLoop_setsIds (n : ℕ) (fsin : Text) (m : DeviceMap) :
    SetsIds (buildDeviceMapLoop n fsin m) := by
  induction n generalizing fsin m with
  | zero =>
    intro p h
    cases h
  | succ n ih =>
    apply (readDriver_setsIds fsin).bind
    intro r
    cases r with
    | none => exact setsIds_ok _
    | some r => exact ih _ _

lemma readDevice_setsIds (info : Stat) : SetsIds (readDevice sys info) := by
  refine SetsIds.bind ?_ fun m => setsIds_ok _
  unfold buildDeviceMap
  split
  · exact setsIds_ok _
  · exact buildDeviceMapLoop_setsIds _ _ _

lemma readIDs_setsIds (o : ProcOption) (info : ProcInfo) : SetsIds (readIDs sys o info) := by
  unfold readIDs
  split_ifs
  all_goals
    dsimp only
    split
    · intro p h
      cases h
    · exact setsIds_ok _

theorem ProcOption.read_setsIds (info : ProcInfo) (o : ProcOption) :
    SetsIds (o.read sys info) := by
  cases o with
  | username | uid | ugidName | ugid => exact readIDs_setsIds sys _ info
  | startTime =>
    refine SetsIds.bind ?_ fun t => setsIds_ok _
    unfold readStartTime
    split
    · exact setsIds_ok _
    · exact readLocalTime_setsIds sys _ _
  | device => exact (readDevice_setsIds sys _).bind fun t => setsIds_ok _
  | command | ppid | procgid | cpuTime | state | vms | rms | memText | memData | memStack
  | instPtr | perms => exact setsIds_ok _

lemma clearedBlock_setsIds (b : Option Block) (len : ℕ) : SetsIds (clearedBlock b len) := by
  cases b with
  | none =>
    intro p h
    cases h
  | some b => exact setsIds_mapError _

lemma readFileNameLoop_setsIds (path : Text) (n round : ℕ) (b : Block) (len : ℕ) :
    SetsIds (readFileNameLoop sys path n round b len) := by
  induction n generalizing round b len with
  | zero =>
    intro p h
    cases h
  | succ n ih =>
    refine SetsIds.bind ?_ fun r => ?_
    · unfold readlink
      split
      · exact setsIds_ok _
      · exact (setsIds_mapError _).bind fun b => setsIds_ok _
    · split
      · exact (clearedBlock_setsIds _ _).bind fun b => ih _ _ _
      · exact (setsIds_mapError _).bind fun b => setsIds_mapError _

theorem FileOption.read_setsIds (path : Text) (stat : Stat) (o : FileOption) :
    SetsIds (o.read sys path stat) := by
  cases o with
  | name =>
    exact (clearedBlock_setsIds _ _).bind fun b => readFileNameLoop_setsIds sys _ _ _ _ _
  | accessT | modT | statChangeT => exact readLocalTime_setsIds sys _ _
  | device => exact readDevice_setsIds sys _
  | inode | uname | uid | gname | gid | mode | size | perms => exact setsIds_ok _

theorem ProcReader.processOpiton_setsIds {c : Char} (h : c ∈ PROC_OPTS_DEFAULT)
    (info : ProcInfo) : SetsIds (ProcReader.processOpiton sys c info) := by
  obtain ⟨o,rfl⟩ := ProcOption.exists_char h
  rw [ProcReader.processOpiton, ProcOption.ofChar_char]
  exact (ProcOption.read_setsIds sys info o).bind fun r => setsIds_ok _

theorem FileStatReader.processOpiton_setsIds {c : Char} (h : c ∈ FILESTAT_OPTS_DEFAULT)
    (path : Text) (stat : Stat) : SetsIds (FileStatReader.processOpiton sys c path stat) := by
  obtain ⟨o,rfl,i,hi⟩ := FileOption.exists_char h
  rw [FileStatReader.processOpiton, FileOption.ofChar_char]
  apply (FileOption.read_setsIds sys path stat o).bind
  intro a
  rw [hi]
  exact setsIds_ok _

end

/-- An argument that is not the word `no` and has a flag outside the default list. -/
def BadArg (defaults options : Text) : Prop := options ≠ NO ∧ ∃ c ∈ options, c ∉ defaults

lemma mem_of_not_badArg {defaults options : Text} (h : ¬ BadArg defaults options)
    (hne : options ≠ NO) : ∀ c ∈ options, c ∈ defaults := by
  intro c hc
  by_contra hn
  exact h ⟨hne,c,hc,hn⟩

def GetoptAnswer.Bad (a : GetoptAnswer) : Prop :=
  match a.code with
  | .proc => BadArg PROC_OPTS_DEFAULT a.optarg
  | .file => BadArg FILESTAT_OPTS_DEFAULT a.optarg
  | .error => False

/-- The last argument given for an option, else its default. -/
def lastArg (code : OptionCode) (default : Text) (answers : List GetoptAnswer) : Text :=
  ((answers.filter (·.code = code)).getLast?.map GetoptAnswer.optarg).getD default

def lastProc : List GetoptAnswer → Text := lastArg .proc PROC_OPTS_DEFAULT

def lastFile : List GetoptAnswer → Text := lastArg .file FILESTAT_OPTS_DEFAULT

/-- The last option given, of either kind, has a bad argument. -/
def LastBad (answers : List GetoptAnswer) : Prop :=
  ∃ a, (answers.filter (·.code ≠ .error)).getLast? = some a ∧ a.Bad

/-- The readers for two option strings; with both off, `lsof` alone is not run. -/
def requestedReaders (proc_ops file_ops : Text) : List DataDigger :=
  if proc_ops = NO ∧ file_ops = NO then []
  else (.lsof,LSOF_OPTS_DEFAULT) ::
    ((if proc_ops ≠ NO then [(.proc,proc_ops)] else []) ++
      if file_ops ≠ NO then [(.filestat,file_ops)] else [])

theorem checkOptions_fst {defaults options cmd : Text} :
    (checkOptions defaults options cmd).1 = true ↔ ¬ BadArg defaults options := by
  unfold checkOptions BadArg
  split_ifs with h
  · simp [h]
  · simp only [List.all_eq_true, decide_eq_true_eq]
    exact ⟨fun hall ⟨_,c,hc,hn⟩ => hn (hall c hc),fun hno => mem_of_not_badArg hno h⟩

/-- One round of the option loop where `char` is signed. -/
def MainOptions.round (o : MainOptions) (a : GetoptAnswer) : MainOptions :=
  o.switch a.code.value a.optarg

def parsed (answers : List GetoptAnswer) : MainOptions :=
  answers.foldl MainOptions.round MainOptions.init

section
variable (answers : List GetoptAnswer)

theorem parsed_proc_ops : (parsed answers).proc_ops = lastProc answers := by
  induction answers using List.reverseRecOn with
  | nil => rfl
  | append_singleton l a ih =>
    unfold parsed lastProc lastArg at *
    rw [List.foldl_append, List.filter_append]
    obtain ⟨code,optarg⟩ := a
    cases code with
    | proc => simp [MainOptions.round, MainOptions.switch, OptionCode.value]
    | file => simpa [MainOptions.round, MainOptions.switch, OptionCode.value] using ih
    | error => simpa [MainOptions.round, MainOptions.switch, OptionCode.value] using ih

theorem parsed_file_ops : (parsed answers).file_ops = lastFile answers := by
  induction answers using List.reverseRecOn with
  | nil => rfl
  | append_singleton l a ih =>
    unfold parsed lastFile lastArg at *
    rw [List.foldl_append, List.filter_append]
    obtain ⟨code,optarg⟩ := a
    cases code with
    | proc => simpa [MainOptions.round, MainOptions.switch, OptionCode.value] using ih
    | file => simp [MainOptions.round, MainOptions.switch, OptionCode.value]
    | error => simpa [MainOptions.round, MainOptions.switch, OptionCode.value] using ih

theorem parsed_flagsOkay : (parsed answers).flagsOkay = true ↔ ¬ LastBad answers := by
  induction answers using List.reverseRecOn with
  | nil => simp [parsed, MainOptions.init, LastBad]
  | append_singleton l a ih =>
    unfold parsed LastBad at *
    rw [List.foldl_append, List.filter_append]
    obtain ⟨code,optarg⟩ := a
    cases code with
    | proc =>
      simp [MainOptions.round, MainOptions.switch, OptionCode.value, checkOptions_fst,
        GetoptAnswer.Bad]
    | file =>
      simp [MainOptions.round, MainOptions.switch, OptionCode.value, checkOptions_fst,
        GetoptAnswer.Bad]
    | error => simpa [MainOptions.round, MainOptions.switch, OptionCode.value] using ih

end

theorem readersRun_eq (answers : List GetoptAnswer) : (parsed answers).readersRun =
    if (parsed answers).flagsOkay then requestedReaders (lastProc answers) (lastFile answers)
    else [] := by
  unfold MainOptions.readersRun MainOptions.funcvector requestedReaders
  rw [parsed_proc_ops, parsed_file_ops]
  cases (parsed answers).flagsOkay with
  | false => rfl
  | true =>
    by_cases hp : lastProc answers = NO <;> by_cases hf : lastFile answers = NO <;> simp [hp, hf]

/-- A bad flag anywhere stops the run: no reader runs and nothing is queued; otherwise the
readers run with the last strings given, whose flags all have an identifier to set. -/
structure BadFlagStops (answers : List GetoptAnswer) (o : MainOptions) : Prop where
  stops : (∃ a ∈ answers, a.Bad) → o.readersRun = [] ∧
    ∀ env, o.runReaders env = .ok (Built.init,[])
  runs : (∀ a ∈ answers, ¬ a.Bad) →
    o.readersRun = requestedReaders (lastProc answers) (lastFile answers)
  proc : ∀ ops, (.proc,ops) ∈ o.readersRun → ∀ c ∈ ops, ∀ sys info,
    SetsIds (ProcReader.processOpiton sys c info)
  file : ∀ ops, (.filestat,ops) ∈ o.readersRun → ∀ c ∈ ops, ∀ sys path stat,
    SetsIds (FileStatReader.processOpiton sys c path stat)

lemma runReaders_nil {o : MainOptions} (h : o.readersRun = []) (env : Surroundings) :
    o.runReaders env = .ok (Built.init,[]) := by
  unfold MainOptions.runReaders
  rw [h]
  rfl

lemma mem_of_getLast?_filter {p : GetoptAnswer → Bool} {answers : List GetoptAnswer}
    {a : GetoptAnswer} (h : (answers.filter p).getLast? = some a) : a ∈ answers :=
  List.mem_of_mem_filter (List.mem_of_getLast? h)

/-- The arguments in force are the defaults or were given, so without a bad one they are good. -/
lemma lastArg_good {code : OptionCode} {defaults : Text} {answers : List GetoptAnswer}
    (h : ∀ a ∈ answers, a.code = code → ¬ BadArg defaults a.optarg) :
    ¬ BadArg defaults (lastArg code defaults answers) := by
  unfold lastArg
  cases hl : (answers.filter (·.code = code)).getLast? with
  | none =>
    rintro ⟨_,c,hc,hn⟩
    exact hn hc
  | some a =>
    have hm := List.mem_of_getLast? hl
    simp only [List.mem_filter, decide_eq_true_eq] at hm
    exact h a hm.1 hm.2

lemma mem_requestedReaders {p f ops : Text} {r : ReaderId}
    (h : (r,ops) ∈ requestedReaders p f) :
    (r = .proc → ops = p ∧ p ≠ NO) ∧ (r = .filestat → ops = f ∧ f ≠ NO) := by
  rw [requestedReaders] at h
  split at h
  · cases h
  · rcases List.mem_cons.mp h with h | h
    · cases h
      exact ⟨nofun,nofun⟩
    · rcases List.mem_append.mp h with h | h
      · split_ifs at h with hp
        · cases List.mem_singleton.mp h
          exact ⟨fun _ => ⟨rfl,hp⟩,nofun⟩
        · cases h
      · split_ifs at h with hf
        · cases List.mem_singleton.mp h
          exact ⟨nofun,fun _ => ⟨rfl,hf⟩⟩
        · cases h

lemma badFlagStops_of_good {answers : List GetoptAnswer} (hall : ∀ a ∈ answers, ¬ a.Bad) :
    BadFlagStops answers (parsed answers) := by
  have hok : (parsed answers).flagsOkay = true := by
    rw [parsed_flagsOkay]
    rintro ⟨a,ha,hbad⟩
    exact hall a (mem_of_getLast?_filter ha) hbad
  have hrun := readersRun_eq answers
  rw [hok, if_pos rfl] at hrun
  refine ⟨fun ⟨a,ha,hbad⟩ => absurd hbad (hall a ha),fun _ => hrun,?_,?_⟩
  · intro ops hops c hc sys info
    rw [hrun] at hops
    obtain ⟨rfl,hne⟩ := (mem_requestedReaders hops).1 rfl
    have hgood : ¬ BadArg PROC_OPTS_DEFAULT (lastProc answers) := lastArg_good fun a ha hcode => by
      have := hall a ha
      rwa [GetoptAnswer.Bad, hcode] at this
    exact ProcReader.processOpiton_setsIds sys (mem_of_not_badArg hgood hne c hc) info
  · intro ops hops c hc sys path stat
    rw [hrun] at hops
    obtain ⟨rfl,hne⟩ := (mem_requestedReaders hops).2 rfl
    have hgood : ¬ BadArg FILESTAT_OPTS_DEFAULT (lastFile answers) := lastArg_good fun a ha hcode => by
      have := hall a ha
      rwa [GetoptAnswer.Bad, hcode] at this
    exact FileStatReader.processOpiton_setsIds sys (mem_of_not_badArg hgood hne c hc) path stat

/-- When no reader runs there is nothing to stop, unless the readers were asked for. -/
lemma badFlagStops_of_nil {answers : List GetoptAnswer} {o : MainOptions} (hr : o.readersRun = [])
    (hrequested : (∀ a ∈ answers, ¬ a.Bad) →
      requestedReaders (lastProc answers) (lastFile answers) = []) : BadFlagStops answers o where
  stops _ := ⟨hr,runReaders_nil hr⟩
  runs hall := hr.trans (hrequested hall).symm
  proc ops hops := by
    rw [hr] at hops
    cases hops
  file ops hops := by
    rw [hr] at hops
    cases hops

/-- A bad flag stops the run exactly when there is none, or the last option given has one, or
both readers are switched off in the end. -/
theorem badFlagStops_iff (answers : List GetoptAnswer) :
    (∃ o, optionLoop true (answers.length+1) answers MainOptions.init = some o ∧
        BadFlagStops answers o) ↔
      (∀ a ∈ answers, ¬ a.Bad) ∨ LastBad answers ∨
        lastProc answers = NO ∧ lastFile answers = NO := by
  have hloop : optionLoop true (answers.length+1) answers MainOptions.init =
      some (answers.foldl MainOptions.round MainOptions.init) :=
    optionLoop_signed (by omega) MainOptions.init
  have hrun := readersRun_eq answers
  constructor
  · rintro ⟨o,ho,h⟩
    cases hloop.symm.trans ho
    by_contra hno
    simp only [not_or, not_forall, not_not] at hno
    obtain ⟨⟨a,ha,hbad⟩,hlast,hboth⟩ := hno
    have hnil := (h.stops ⟨a,ha,hbad⟩).1
    change (parsed answers).readersRun = [] at hnil
    rw [hrun, if_pos ((parsed_flagsOkay answers).mpr hlast)] at hnil
    rw [requestedReaders, if_neg hboth] at hnil
    cases hnil
  · intro h
    refine ⟨parsed answers,hloop,?_⟩
    have hnil : LastBad answers ∨
        lastProc answers = NO ∧ lastFile answers = NO →
        (parsed answers).readersRun = [] := by
      rintro (hl | hboth)
      · rw [hrun, if_neg fun hk => (parsed_flagsOkay answers).mp hk hl]
      · rw [hrun, requestedReaders, if_pos hboth]
        split_ifs <;> rfl
    rcases h with hall | hrest
    · exact badFlagStops_of_good hall
    · apply badFlagStops_of_nil (hnil hrest)
      intro hall
      rcases hrest with ⟨a,ha,hbad⟩ | hboth
      · exact absurd hbad (hall a (mem_of_getLast?_filter ha))
      · rw [requestedReaders, if_pos hboth]

/-- A bad `--proc` flag followed by a good `--file` string: the readers run. -/
theorem not_badFlagStops_first :
    ¬ ∃ o, optionLoop true 3 [⟨.proc,"Z".toList⟩,⟨.file,"n".toList⟩] MainOptions.init = some o ∧
      BadFlagStops [⟨.proc,"Z".toList⟩,⟨.file,"n".toList⟩] o := by
  rintro ⟨o,ho,h⟩
  have hbad : GetoptAnswer.Bad ⟨.proc,"Z".toList⟩ := ⟨by decide,'Z',by decide,by decide⟩
  have hnil := (h.stops ⟨_,List.mem_cons_self,hbad⟩).1
  have hrun : (optionLoop true 3 [⟨.proc,"Z".toList⟩,⟨.file,"n".toList⟩] MainOptions.init).map
      MainOptions.readersRun = some [(.lsof,"pfg".toList),(.proc,"Z".toList),(.filestat,"n".toList)] := by
    decide +kernel
  rw [ho, Option.map_some, hnil] at hrun
  cases hrun

end Cphf
