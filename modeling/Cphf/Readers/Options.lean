import Cphf.Readers.FileStat
import Cphf.CLib.Gather

/-! What the loops over the options compute, said once: the text of an option depends on the
record with both lookups made, which no option changes, and the texts are gathered by the
identifier each option sets. -/
namespace Cphf
open CLib

namespace ProcOption

@[simp] theorem ofChar_char (o : ProcOption) : ofChar o.char = some o := by cases o <;> rfl

theorem ofChar_eq_some {c : Char} {o : ProcOption} : ofChar c = some o ↔ c = o.char := by
  constructor
  · intro h
    have := List.find?_some h
    simpa [eq_comm] using this
  · rintro rfl
    exact ofChar_char o

theorem char_injective : Function.Injective char := by
  intro a b h
  rw [← Option.some.injEq, ← ofChar_char a, h, ofChar_char]

/-- Every default character has a case. -/
theorem exists_char {c : Char} (h : c ∈ PROC_OPTS_DEFAULT) : ∃ o, c = char o := by
  have hall : PROC_OPTS_DEFAULT.all (fun c => (ofChar c).isSome) = true := by decide
  obtain ⟨o,ho⟩ := Option.isSome_iff_exists.mp (List.all_eq_true.mp hall c h)
  exact ⟨o,ofChar_eq_some.mp ho⟩

theorem attribID_injective : Function.Injective attribID := by
  intro a b h
  cases a <;> cases b <;> first | rfl | cases h

end ProcOption

namespace FileOption

@[simp] theorem ofChar_char (o : FileOption) : ofChar o.char = some o := by cases o <;> rfl

theorem ofChar_eq_some {c : Char} {o : FileOption} : ofChar c = some o ↔ c = o.char := by
  constructor
  · intro h
    have := List.find?_some h
    simpa [eq_comm] using this
  · rintro rfl
    exact ofChar_char o

theorem char_injective : Function.Injective char := by
  intro a b h
  rw [← Option.some.injEq, ← ofChar_char a, h, ofChar_char]

/-- Every default character has a case, and one that sets an identifier. -/
theorem exists_char {c : Char} (h : c ∈ FILESTAT_OPTS_DEFAULT) :
    ∃ o, c = char o ∧ ∃ i, o.attribID = some i := by
  have hall : FILESTAT_OPTS_DEFAULT.all (fun c => ((ofChar c).bind attribID).isSome) = true := by
    decide
  obtain ⟨i,hi⟩ := Option.isSome_iff_exists.mp (List.all_eq_true.mp hall c h)
  obtain ⟨o,ho,hi⟩ := Option.bind_eq_some_iff.mp hi
  exact ⟨o,ofChar_eq_some.mp ho,i,hi⟩

theorem attribID_injective {a b : FileOption} {i : CphfId} (ha : a.attribID = some i)
    (hb : b.attribID = some i) : a = b := by
  cases a <;> cases b <;> first | rfl | cases ha <;> cases hb

end FileOption

/-- The flags of an option string are all known. -/
theorem accepted_of_all {defaults options : Text} (h : options.all (· ∈ defaults) = true) :
    ∀ c ∈ options, c ∈ defaults := by simpa using h

section
variable (sys : System) (i : ProcInfo)

/-- The record with both lookups made. -/
def ProcInfo.resolved : ProcInfo :=
  { i with
    pw := i.pw.or (sys.getpwuid i.info.st_uid)
    gr := i.gr.or (sys.getgrgid i.info.st_gid) }

/-- The text of an option. -/
def ProcOption.text (o : ProcOption) : Except Fault Text := Prod.fst <$> o.read sys i

section
variable {x : Except Fault (Text × ProcInfo)} {y : Except Fault Text} {t : Text} {j : ProcInfo}

lemma read_of_bind (h : x = y >>= fun t => .ok (t,j)) :
    x = (Prod.fst <$> x) >>= fun t => .ok (t,j) := by
  subst h
  cases y <;> rfl

lemma read_of_ok (h : x = .ok (t,j)) : x = (Prod.fst <$> x) >>= fun t => .ok (t,j) := by
  subst h
  rfl

end

lemma fst_map_bind (x : Except Fault Text) (j : ProcInfo) :
    Prod.fst <$> (x >>= fun t => Except.ok (t,j)) = x := by
  cases x <;> rfl

theorem ProcOption.read_startTime : ProcOption.startTime.read sys i =
    readStartTime sys (asLong i.starttime.toNat) CPHF_FORMAT_DATE_TIME >>= fun t => .ok (t,i) := by
  unfold read
  dsimp only

theorem ProcOption.text_startTime : ProcOption.startTime.text sys i =
    readStartTime sys (asLong i.starttime.toNat) CPHF_FORMAT_DATE_TIME :=
  fst_map_bind (readStartTime sys (asLong i.starttime.toNat) CPHF_FORMAT_DATE_TIME) i

theorem ProcOption.text_device : ProcOption.device.text sys i = readDevice sys i.info :=
  fst_map_bind (readDevice sys i.info) i

theorem ProcOption.text_command : ProcOption.command.text sys i = .ok (readCMD sys i.pid) := rfl

theorem ProcOption.text_ppid : ProcOption.ppid.text sys i = .ok (Cphf.format i.ppid) := rfl

theorem ProcOption.text_procgid : ProcOption.procgid.text sys i = .ok (Cphf.format i.procgid) := rfl

theorem ProcOption.text_cpuTime : ProcOption.cpuTime.text sys i =
    .ok (readETime sys (asLong (i.pstime + i.putime).toNat)) := by
  unfold text read
  dsimp only [Functor.map, Except.map]

theorem ProcOption.text_state : ProcOption.state.text sys i = .ok (procstate i.state) := rfl

theorem ProcOption.text_vms : ProcOption.vms.text sys i = .ok (Cphf.format i.vms.toUInt32) := rfl

theorem ProcOption.text_rms : ProcOption.rms.text sys i = .ok (Cphf.format i.rss.toUInt32) := rfl

theorem ProcOption.text_memText : ProcOption.memText.text sys i =
    .ok (formatRange i.textbegin i.textend) := rfl

theorem ProcOption.text_memData : ProcOption.memData.text sys i =
    .ok (formatRange i.databegin i.dataend) := rfl

theorem ProcOption.text_memStack : ProcOption.memStack.text sys i =
    .ok (formatRange i.stackbegin i.esp) := rfl

theorem ProcOption.text_instPtr : ProcOption.instPtr.text sys i =
    .ok (formatRange i.epi INST_POINTER) := rfl

theorem ProcOption.text_perms : ProcOption.perms.text sys i = .ok (readPerms i.info.st_mode) := rfl

/-- A lookup's result rendered, or the fault of a null pointer. -/
def lookedUp {α : Type} (fault : Fault) (render : α → Text) : Option α → Except Fault Text
  | none => .error fault
  | some a => .ok (render a)

theorem ProcOption.text_username : ProcOption.username.text sys i =
    lookedUp .nullPasswd Passwd.pw_name (i.pw.or (sys.getpwuid i.info.st_uid)) := by
  unfold text read readIDs
  cases i.pw.or (sys.getpwuid i.info.st_uid) <;> simp [lookedUp, Functor.map, Except.map]

theorem ProcOption.text_uid : ProcOption.uid.text sys i = lookedUp .nullPasswd
    (fun pw => decimal pw.pw_uid.toNat) (i.pw.or (sys.getpwuid i.info.st_uid)) := by
  unfold text read readIDs
  cases i.pw.or (sys.getpwuid i.info.st_uid) <;> simp [lookedUp, Functor.map, Except.map]

theorem ProcOption.text_ugidName : ProcOption.ugidName.text sys i =
    lookedUp .nullGroup Group.gr_name (i.gr.or (sys.getgrgid i.info.st_gid)) := by
  unfold text read readIDs
  cases i.gr.or (sys.getgrgid i.info.st_gid) <;> simp [lookedUp, Functor.map, Except.map]

theorem ProcOption.text_ugid : ProcOption.ugid.text sys i = lookedUp .nullGroup
    (fun gr => decimal gr.gr_gid.toNat) (i.gr.or (sys.getgrgid i.info.st_gid)) := by
  unfold text read readIDs
  cases i.gr.or (sys.getgrgid i.info.st_gid) <;> simp [lookedUp, Functor.map, Except.map]

/-- The record an option leaves behind. -/
def ProcOption.after : ProcOption → ProcInfo
  | .username | .uid => { i with pw := i.pw.or (sys.getpwuid i.info.st_uid) }
  | .ugidName | .ugid => { i with gr := i.gr.or (sys.getgrgid i.info.st_gid) }
  | _ => i

theorem ProcOption.read_eq (o : ProcOption) :
    o.read sys i = o.text sys i >>= fun t => .ok (t,o.after sys i) := by
  have hids : ∀ o, (o = .username ∨ o = .uid ∨ o = .ugidName ∨ o = .ugid) →
      readIDs sys o i = (Prod.fst <$> readIDs sys o i) >>= fun t => .ok (t,o.after sys i) := by
    rintro o (rfl | rfl | rfl | rfl)
    · unfold readIDs
      cases h : i.pw.or (sys.getpwuid i.info.st_uid) <;> simp [h, after, Functor.map, Except.map]
    · unfold readIDs
      cases h : i.pw.or (sys.getpwuid i.info.st_uid) <;> simp [h, after, Functor.map, Except.map]
    · unfold readIDs
      cases h : i.gr.or (sys.getgrgid i.info.st_gid) <;> simp [h, after, Functor.map, Except.map]
    · unfold readIDs
      cases h : i.gr.or (sys.getgrgid i.info.st_gid) <;> simp [h, after, Functor.map, Except.map]
  cases o with
  | username => exact hids _ (by simp)
  | uid => exact hids _ (by simp)
  | ugidName => exact hids _ (by simp)
  | ugid => exact hids _ (by simp)
  | startTime => exact read_of_bind (read_startTime sys i)
  | device => exact read_of_bind (y := readDevice sys i.info) rfl
  | command | ppid | procgid | cpuTime | state | vms | rms | memText | memData | memStack
  | instPtr | perms => exact read_of_ok rfl

lemma Option.or_or_self {α : Type} (a b : Option α) : (a.or b).or b = a.or b := by
  cases a <;> cases b <;> rfl

@[simp] theorem ProcInfo.resolved_after (o : ProcOption) :
    (o.after sys i).resolved sys = i.resolved sys := by
  cases o <;> simp [ProcOption.after, resolved, Option.or_or_self]

/-- The text of an option is that of the record with both lookups made. -/
theorem ProcOption.text_resolved (o : ProcOption) :
    o.text sys (i.resolved sys) = o.text sys i := by
  cases o with
  | username => simp [text_username, ProcInfo.resolved, Option.or_or_self]
  | uid => simp [text_uid, ProcInfo.resolved, Option.or_or_self]
  | ugidName => simp [text_ugidName, ProcInfo.resolved, Option.or_or_self]
  | ugid => simp [text_ugid, ProcInfo.resolved, Option.or_or_self]
  | startTime => rw [text_startTime, text_startTime]; rfl
  | device => rw [text_device, text_device]; rfl
  | command | ppid | procgid | cpuTime | state | vms | rms | memText | memData | memStack
  | instPtr | perms => rfl

/-- The attribute an option character gives. -/
def ProcReader.entry (c : Char) : Except Fault CphfAttribute :=
  match ProcOption.ofChar c with
  | none => .error (.unsetAttribute (notRecognized c))
  | some o => o.text sys i >>= fun t => .ok (o.attribID,t)

theorem ProcReader.entry_eq_ok {c : Char} {a : CphfAttribute} :
    entry sys i c = .ok a ↔ ∃ o, c = ProcOption.char o ∧ a.1 = o.attribID ∧ o.text sys i = .ok a.2 := by
  unfold entry
  cases h : ProcOption.ofChar c with
  | none =>
    simp only [reduceCtorEq, false_iff]
    rintro ⟨o,rfl,_⟩
    rw [ProcOption.ofChar_char] at h
    cases h
  | some o =>
    rw [ProcOption.ofChar_eq_some] at h
    subst h
    obtain ⟨k,v⟩ := a
    constructor
    · intro h
      obtain ⟨t,ht,he⟩ := bind_eq_ok.mp h
      cases he
      exact ⟨o,rfl,rfl,ht⟩
    · rintro ⟨o',hc,rfl,ht⟩
      have ho : o = o' := Option.some.inj
        (by rw [← ProcOption.ofChar_char o, hc, ProcOption.ofChar_char])
      subst ho
      simp only [ht, ok_bind]

theorem ProcReader.entry_functional : Functional (entry sys i) := by
  intro a b k v w ha hb
  obtain ⟨o,_,hk,hv⟩ := (entry_eq_ok sys i).mp ha
  obtain ⟨o',_,hk',hw⟩ := (entry_eq_ok sys i).mp hb
  have ho : o = o' := ProcOption.attribID_injective (hk.symm.trans hk')
  subst ho
  exact Except.ok.inj (hv.symm.trans hw)

/-- Records with the same lookups to make give the same attributes. -/
theorem ProcReader.entry_congr {sys : System} {i j : ProcInfo}
    (h : i.resolved sys = j.resolved sys) : entry sys i = entry sys j := by
  funext c
  unfold entry
  cases ProcOption.ofChar c with
  | none => rfl
  | some o =>
    have ht : o.text sys i = o.text sys j := by
      rw [← ProcOption.text_resolved, h, ProcOption.text_resolved]
    simp only [ht]

def usesPw (options : Text) : Bool := options.any fun c => c = 'U' || c = 'u'

def usesGr (options : Text) : Bool := options.any fun c => c = 'G' || c = 'g'

/-- The record after a process: lookups that were made stay. -/
def ProcInfo.afterOptions (options : Text) : ProcInfo :=
  { i with
    pw := if usesPw options then i.pw.or (sys.getpwuid i.info.st_uid) else i.pw
    gr := if usesGr options then i.gr.or (sys.getgrgid i.info.st_gid) else i.gr }

@[simp] theorem ProcInfo.afterOptions_nil : i.afterOptions sys [] = i := rfl

theorem ProcInfo.afterOptions_cons (o : ProcOption) (options : Text) :
    i.afterOptions sys (o.char :: options) = (o.after sys i).afterOptions sys options := by
  have hpw : usesPw (o.char :: options) = ((o.char = 'U' || o.char = 'u') || usesPw options) := by
    simp [usesPw]
  have hgr : usesGr (o.char :: options) = ((o.char = 'G' || o.char = 'g') || usesGr options) := by
    simp [usesGr]
  unfold afterOptions
  rw [hpw, hgr]
  cases o <;> simp [ProcOption.char, ProcOption.after, Option.or_or_self]

/-- The loop over the options gathers their attributes. -/
theorem ProcReader.run_collect (m : ReaderFuncs) (options : Text) :
    run (collect sys) (i,m) options =
      gather (entry sys i) m options >>= fun m' => .ok (i.afterOptions sys options,m') := by
  induction options generalizing i m with
  | nil => rfl
  | cons c options ih =>
    have hc : collect sys (i,m) c = entry sys i c >>= fun a =>
        .ok ((ProcOption.ofChar c).elim i (·.after sys i),m.insertNew a.1 a.2) := by
      unfold collect processOpiton entry
      cases ProcOption.ofChar c with
      | none => rfl
      | some o =>
        dsimp only [Option.elim]
        rw [o.read_eq sys i]
        cases o.text sys i <;> rfl
    rw [run_cons, hc, gather, run_cons]
    cases he : entry sys i c with
    | error e => rfl
    | ok a =>
      obtain ⟨o,rfl,_⟩ := (entry_eq_ok sys i).mp he
      simp only [ok_bind, ProcOption.ofChar_char, Option.elim_some, ih,
        entry_congr (i.resolved_after sys o), ProcInfo.afterOptions_cons]
      rfl

end

section
variable (sys : System) (path : Text) (stat : Stat)

theorem FileStatReader.run_collect (m : ReaderFuncs) (options : Text) :
    run (collect sys path stat) m options =
      gather (fun c => processOpiton sys c path stat) m options := rfl

theorem FileStatReader.processOpiton_eq_ok {c : Char} {a : CphfAttribute} :
    processOpiton sys c path stat = .ok a ↔
      ∃ o, c = FileOption.char o ∧ o.attribID = some a.1 ∧ o.read sys path stat = .ok a.2 := by
  unfold processOpiton
  cases h : FileOption.ofChar c with
  | none =>
    simp only [reduceCtorEq, false_iff]
    rintro ⟨o,rfl,_⟩
    rw [FileOption.ofChar_char] at h
    cases h
  | some o =>
    rw [FileOption.ofChar_eq_some] at h
    subst h
    obtain ⟨k,v⟩ := a
    constructor
    · intro h
      obtain ⟨t,ht,he⟩ := bind_eq_ok.mp h
      cases hi : o.attribID with
      | none =>
        rw [hi] at he
        cases he
      | some j =>
        rw [hi] at he
        cases he
        exact ⟨o,rfl,hi,ht⟩
    · rintro ⟨o',hc,hi,ht⟩
      have ho : o = o' := Option.some.inj
        (by rw [← FileOption.ofChar_char o, hc, FileOption.ofChar_char])
      subst ho
      simp only [ht, ok_bind, hi]

theorem FileStatReader.processOpiton_functional :
    Functional fun c => processOpiton sys c path stat := by
  intro a b k v w ha hb
  obtain ⟨o,_,hk,hv⟩ := (processOpiton_eq_ok sys path stat).mp ha
  obtain ⟨o',_,hk',hw⟩ := (processOpiton_eq_ok sys path stat).mp hb
  have ho : o = o' := FileOption.attribID_injective hk hk'
  subst ho
  exact Except.ok.inj (hv.symm.trans hw)

end

/-- A run of `ProcReader` visits each process once. -/
theorem ProcReader.do_read_process {sys : System} {fresh : ProcInfo} {options out : Text}
    {procMap m : ProcMap} (h : do_read sys fresh options procMap = .ok (out,m)) {k : ℤ}
    {p : ProcFile} (hp : procMap.find? k = some p) :
    ∃ q, m.find? k = some q ∧ ∃ st st', visit sys options st k p = .ok (st',q) := by
  obtain ⟨⟨st,m'⟩,ht,he⟩ := bind_eq_ok.mp h
  cases he
  exact OMap.find?_traverse (Q := fun k p q => ∃ st st', visit sys options st k p = .ok (st',q))
    (fun s t _ _ _ hv => ⟨s,t,hv⟩) ht hp

theorem FileStatReader.do_read_added {sys : System} {T : UInt64} {options : Text}
    {procMap m : ProcMap} (h : do_read sys T options procMap = .ok m) {k : ℤ} {p : ProcFile}
    (hp : procMap.find? k = some p) : ∃ q, m.find? k = some q ∧
      p.addFileAttributes (readFileStatAttributes sys T options) = .ok q := by
  obtain ⟨⟨_,m'⟩,ht,he⟩ := bind_eq_ok.mp h
  cases he
  exact OMap.find?_traverse
    (Q := fun _ (p q : ProcFile) =>
      p.addFileAttributes (readFileStatAttributes sys T options) = .ok q)
    (fun _ _ _ _ _ ha => by
      obtain ⟨q',hq',he⟩ := map_eq_ok.mp ha
      cases he
      exact hq') ht hp

/-- A run of `FileStatReader` reads each file once, and nothing else of a process changes. -/
theorem FileStatReader.do_read_process {sys : System} {T : UInt64} {options : Text}
    {procMap m : ProcMap} (h : do_read sys T options procMap = .ok m) {k : ℤ} {p : ProcFile}
    (hp : procMap.find? k = some p) :
    ∃ files, m.find? k = some { p with ulFiles := files } ∧
      ∀ j u, p.ulFiles.find? j = some u → ∃ u', files.find? j = some u' ∧
        readFileStatAttributes sys T options (asUInt32 j) p.pid u = .ok u' := by
  obtain ⟨q,hq,hadd⟩ := do_read_added h hp
  obtain ⟨files,hf,rfl⟩ := ProcFile.addFileAttributes_ok.mp hadd
  refine ⟨files,hq,fun j u hu => ?_⟩
  exact OMap.find?_traverse
    (Q := fun j u u' => readFileStatAttributes sys T options (asUInt32 j) p.pid u = .ok u')
    (fun _ _ _ _ _ ha => by
      obtain ⟨a,ha',he⟩ := map_eq_ok.mp ha
      cases he
      exact ha') hf hu

end Cphf
