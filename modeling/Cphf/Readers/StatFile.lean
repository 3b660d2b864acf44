import Cphf.Readers.Options

/-! What `readProcStat` takes from a stat file: the members it converts depend on the file
alone, and the others keep what the record held before. -/
namespace Cphf
open CLib

/-- The members converted by some calls on a stream, with their items. -/
def converted : List (Text × List StatField) → Text → List (StatField × Item)
  | [],_ => []
  | (fmt,fields) :: calls,fin =>
    let r := fscanf fmt fin
    fields.zip r.items ++ converted calls r.rest

/-- The sum of the results. -/
def scanResult : List (Text × List StatField) → Text → ℤ
  | [],_ => 0
  | (fmt,_) :: calls,fin =>
    let r := fscanf fmt fin
    r.result + scanResult calls r.rest

def storeAll (l : List (StatField × Item)) (i : ProcInfo) : ProcInfo :=
  l.foldl (fun i e => e.1.store e.2 i) i

theorem assign_eq (fields : List StatField) (items : List Item) (i : ProcInfo) :
    assign fields items i = storeAll (fields.zip items) i := by
  induction fields generalizing items i with
  | nil => rfl
  | cons f fields ih =>
    cases items with
    | nil => rfl
    | cons x items => exact ih items _

theorem scanStat_eq (calls : List (Text × List StatField)) (fin : Text) (i : ProcInfo) :
    scanStat calls fin i = (scanResult calls fin,storeAll (converted calls fin) i) := by
  induction calls generalizing fin i with
  | nil => rfl
  | cons c calls ih =>
    obtain ⟨fmt,fields⟩ := c
    rw [scanStat, ih, assign_eq]
    simp [scanResult, converted, storeAll]

/-- Calls on a stream convert these items for these members, and count each of them. -/
structure Scans (calls : List (Text × List StatField)) (fin : Text)
    (l : List (StatField × Item)) : Prop where
  converted : Cphf.converted calls fin = l
  result : scanResult calls fin = l.length

theorem Scans.scanStat {calls : List (Text × List StatField)} {fin : Text}
    {l : List (StatField × Item)} (h : Scans calls fin l) (i : ProcInfo) :
    Cphf.scanStat calls fin i = ((l.length : ℤ),storeAll l i) := by
  rw [scanStat_eq, h.result, h.converted]

/-- A call that does not end for want of input counts the items it converts. -/
theorem Scans.cons {fmt fin rest : Text} {fields : List StatField} {items : List Item}
    {e : Option Failure} {calls : List (Text × List StatField)} {l₀ l : List (StatField × Item)}
    (hscan : fscanf fmt fin = ⟨items,e,rest⟩) (he : e ≠ some .input)
    (hl : fields.zip items = l₀) (hlen : l₀.length = items.length) (h : Scans calls rest l) :
    Scans ((fmt,fields) :: calls) fin (l₀ ++ l) where
  converted := by simp only [Cphf.converted, hscan, hl, h.converted]
  result := by simp [scanResult, hscan, Scan.result, he, h.result, hlen]

/-- Everything stored in the record stays out of the lookups. -/
theorem storeAll_lookups (l : List (StatField × Item)) (i : ProcInfo) (pw : Option Passwd)
    (gr : Option Group) :
    storeAll l { i with pw := pw, gr := gr } = { storeAll l i with pw := pw, gr := gr } := by
  induction l generalizing i with
  | nil => rfl
  | cons e l ih =>
    have he : e.1.store e.2 { i with pw := pw, gr := gr } =
        { e.1.store e.2 i with pw := pw, gr := gr } := by cases e.1 <;> rfl
    change storeAll l (e.1.store e.2 { i with pw := pw, gr := gr }) = _
    rw [he, ih]
    rfl

/-- The front of the path whose status `readProcStat` asks for. -/
def exePath (sys : System) (pid : UInt32) : Text :=
  (if (sys.file (procPath pid "stat".toList)).isSome then [] else lookupError pid) ++
    procPath pid "exe".toList

/-- The record after the stat file. -/
def afterStatFile (sys : System) (pid : UInt32) (i : ProcInfo) : ProcInfo :=
  match sys.file (procPath pid "stat".toList) with
  | none => i
  | some fin => { storeAll (converted statCalls fin) i with pw := none, gr := none }

/-- The text `readProcStat` prints. -/
def statMessage (sys : System) (pid : UInt32) : Text :=
  match sys.file (procPath pid "stat".toList) with
  | none => []
  | some fin => if scanResult statCalls fin = 18 then [] else
      "ERROR: problem reading /proc/".toList ++ signedDecimal (asInt pid.toNat) ++ "/stat\n".toList

theorem readStatFile_eq (sys : System) (pid : UInt32) (st : ProcLoop) :
    readStatFile sys pid st =
      (⟨afterStatFile sys pid st.info,st.printed ++ statMessage sys pid⟩,
        if (sys.file (procPath pid "stat".toList)).isSome then [] else lookupError pid) := by
  unfold readStatFile afterStatFile statMessage
  cases sys.file (procPath pid "stat".toList) with
  | none =>
    dsimp only
    rw [List.append_nil]
    rfl
  | some fin =>
    dsimp only
    rw [scanStat_eq]
    rfl

theorem readProcStat_eq (sys : System) (pid : UInt32) (st : ProcLoop) :
    readProcStat sys pid st =
      match sys.stat (exePath sys pid) with
      | none => (false,⟨afterStatFile sys pid st.info,st.printed ++ statMessage sys pid⟩)
      | some info => (true,⟨{ afterStatFile sys pid st.info with info := info },
          st.printed ++ statMessage sys pid⟩) := by
  unfold readProcStat
  cases h : sys.stat (exePath sys pid) <;>
  · unfold exePath at h
    simp only [readStatFile_eq, h]

/-- The record a process is read from, its program having this status. -/
def ProcInfo.forProcess (sys : System) (pid : UInt32) (info : Stat) (i : ProcInfo) : ProcInfo :=
  { afterStatFile sys pid i with info := info, pid := pid }

/-- One process: skipped when its program cannot be examined, else given what its options
gather from the record. -/
theorem ProcReader.visit_eq (sys : System) (options : Text) (st : ProcLoop) (key : ℤ)
    (proc : ProcFile) : visit sys options st key proc =
      match sys.stat (exePath sys (asUInt32 key)) with
      | none => .ok (⟨afterStatFile sys (asUInt32 key) st.info,
          st.printed ++ statMessage sys (asUInt32 key)⟩,proc)
      | some info =>
        let i := st.info.forProcess sys (asUInt32 key) info
        gather (entry sys i) ∅ options >>= fun funcs =>
          .ok (⟨i.afterOptions sys options,st.printed ++ statMessage sys (asUInt32 key)⟩,
            proc.addAttributes funcs.entries) := by
  unfold visit
  dsimp only
  rw [readProcStat_eq]
  cases sys.stat (exePath sys (asUInt32 key)) with
  | none => rfl
  | some info =>
    dsimp only
    rw [run_collect, bind_assoc]
    rfl

/-- What is left of a process that was visited. -/
theorem ProcReader.visit_eq_ok {sys : System} {options : Text} {st st' : ProcLoop} {key : ℤ}
    {proc q : ProcFile} (h : visit sys options st key proc = .ok (st',q)) :
    (sys.stat (exePath sys (asUInt32 key)) = none ∧ q = proc) ∨ ∃ info funcs,
      sys.stat (exePath sys (asUInt32 key)) = some info ∧
      gather (entry sys (st.info.forProcess sys (asUInt32 key) info)) ∅ options = .ok funcs ∧
      q = proc.addAttributes funcs.entries := by
  rw [visit_eq] at h
  cases hs : sys.stat (exePath sys (asUInt32 key)) with
  | none =>
    rw [hs] at h
    cases h
    exact .inl ⟨rfl,rfl⟩
  | some info =>
    rw [hs] at h
    obtain ⟨funcs,hg,he⟩ := bind_eq_ok.mp h
    cases he
    exact .inr ⟨info,funcs,rfl,hg,rfl⟩

end Cphf
