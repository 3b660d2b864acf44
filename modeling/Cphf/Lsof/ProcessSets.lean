import Cphf.Lsof.Order

/-! Streams made of process sets: a `p` record, then file sets of an `f` record and perhaps a
`G` record. They are always read to the end, and their ledger has a closed form. -/
namespace Cphf
open CLib

structure FileSet where
  fd : Value
  flags : Option Value

structure ProcSet where
  pid : Value
  files : List FileSet

def FileSet.records (s : FileSet) : List Record :=
  ⟨'f',s.fd,rfl⟩ :: (s.flags.map fun v => (⟨'G',v,rfl⟩ : Record)).toList

def ProcSet.records (s : ProcSet) : List Record :=
  ⟨'p',s.pid,rfl⟩ :: s.files.flatMap FileSet.records

/-- The records of a complete stream. -/
def setRecords (sets : List ProcSet) : List Record := sets.flatMap ProcSet.records

/-- The stream itself. -/
def stream (sets : List ProcSet) : Text := lines (setRecords sets)

/-- The number a `p` record names. -/
def ProcSet.number (s : ProcSet) : ℤ := atoi (c_str s.pid.text)

def FileSet.isTxt (s : FileSet) : Bool := c_str s.fd.text = "txt".toList

/-- The number an `f` record is filed under after `seen` records with the word `txt`. -/
def FileSet.number (T : UInt64) (seen : ℕ) (s : FileSet) : UInt64 :=
  if s.isTxt then T + 1 + UInt64.ofNat seen else asUInt64 (atoi (c_str s.fd.text))

def txtCount (files : List FileSet) : ℕ := files.countP FileSet.isTxt

/-- The keys of consecutive file sets. -/
def fileKeys (T : UInt64) : ℕ → List FileSet → List ℤ
  | _,[] => []
  | seen,s :: l => fileKey (s.number T seen) :: fileKeys T (seen + txtCount [s]) l

/-- Each process set with the keys of its file sets. -/
def filed (T : UInt64) : ℕ → List ProcSet → List (ProcSet × List ℤ)
  | _,[] => []
  | seen,s :: l => (s,fileKeys T seen s.files) :: filed T (seen + txtCount s.files) l

theorem txtCount_cons (s : FileSet) (l : List FileSet) :
    txtCount (s :: l) = txtCount [s] + txtCount l := by
  simp [txtCount, List.countP_cons, Nat.add_comm]

theorem txtCount_singleton (s : FileSet) : txtCount [s] = if s.isTxt then 1 else 0 := by
  simp [txtCount, List.countP_cons]

@[simp] theorem fileKeys_length (T : UInt64) (seen : ℕ) (l : List FileSet) :
    (fileKeys T seen l).length = l.length := by
  induction l generalizing seen with
  | nil => rfl
  | cons s l ih => simp [fileKeys, ih]

@[simp] theorem filed_fst (T : UInt64) (seen : ℕ) (sets : List ProcSet) :
    (filed T seen sets).map Prod.fst = sets := by
  induction sets generalizing seen with
  | nil => rfl
  | cons s l ih => simp [filed, ih]

/-- Short of `2^32`, the number of a `txt` record survives narrowing. -/
theorem txt_toNat {T : UInt64} {i : ℕ} (h : T.toNat + 1 + i < 2^32) :
    (T + 1 + UInt64.ofNat i).toUInt32.toNat = T.toNat + 1 + i := by
  have ht := T.toNat_lt
  rw [UInt64.toNat_toUInt32, UInt64.toNat_add, UInt64.toNat_add, UInt64.toNat_ofNat']
  simp only [UInt64.toNat_one]
  omega

namespace Ledger
variable {T : UInt64}

theorem init_counter (T : UInt64) : (init T).counter = T + 1 + UInt64.ofNat 0 := by
  simp [init]

/-- The pointer a record goes through is set. -/
def Ready (l : Ledger) (r : Record) : Prop :=
  (r.flag = some .fd → l.current ≠ none) ∧ (r.flag = some .flags → l.files.getLast? ≠ none)

def Reads : Ledger → List Record → Prop
  | _,[] => True
  | l,r :: rs => l.Ready r ∧ Reads (l.step r) rs

theorem reads_append {l : Ledger} {rs rs' : List Record} :
    l.Reads (rs ++ rs') ↔ l.Reads rs ∧ (rs.foldl step l).Reads rs' := by
  induction rs generalizing l with
  | nil => simp [Reads]
  | cons r rs ih => simp [Reads, ih, and_assoc]

/-- After the file sets of the process in force. -/
def afterFiles (T : UInt64) (l : Ledger) (k : ℤ) (seen : ℕ) (files : List FileSet) : Ledger :=
  { l with
    counter := T + 1 + UInt64.ofNat (seen + txtCount files)
    files := l.files ++ (fileKeys T seen files).map fun j => (k,j) }

lemma counter_succ (T : UInt64) (seen : ℕ) :
    T + 1 + UInt64.ofNat seen + 1 = T + 1 + UInt64.ofNat (seen + 1) := by
  rw [UInt64.ofNat_add, ← UInt64.add_assoc]
  rfl

theorem foldl_fileSet {l : Ledger} {k : ℤ} {seen : ℕ} (hk : l.current = some k)
    (hc : l.counter = T + 1 + UInt64.ofNat seen) (s : FileSet) :
    l.Reads s.records ∧ s.records.foldl step l = l.afterFiles T k seen [s] := by
  have hf : l.step ⟨'f',s.fd,rfl⟩ = l.afterFiles T k seen [s] := by
    have hn : l.number (c_str s.fd.text) = s.number T seen := by
      simp [number, FileSet.number, FileSet.isTxt, hc]
    have ht : (if c_str s.fd.text = "txt".toList then l.counter + 1 else l.counter) =
        T + 1 + UInt64.ofNat (seen + txtCount [s]) := by
      rw [txtCount_singleton, hc]
      unfold FileSet.isTxt
      split_ifs with h h'
      · exact counter_succ T seen
      · simp_all
      · simp_all
      · rfl
    have hstep : l.step ⟨'f',s.fd,rfl⟩ = { l with
        counter := if c_str s.fd.text = "txt".toList then l.counter + 1 else l.counter
        files := l.files ++ [(k,fileKey (l.number (c_str s.fd.text)))] } := by
      simp only [step, Record.flag, LsofFlag.ofChar, if_true, hk]
      rfl
    rw [hstep, ht, hn]
    rfl
  have hr : l.Ready ⟨'f',s.fd,rfl⟩ := ⟨fun _ => by simp [hk],fun h => (by cases h)⟩
  unfold FileSet.records
  cases hg : s.flags with
  | none => exact ⟨⟨hr,trivial⟩,hf⟩
  | some v =>
    refine ⟨⟨hr,⟨fun h => (by cases h),fun _ => ?_⟩,trivial⟩,?_⟩
    · rw [hf]
      simp [afterFiles, fileKeys]
    · simp only [Option.map_some, Option.toList_some, List.foldl_cons, List.foldl_nil, hf]
      rfl

theorem foldl_files {l : Ledger} {k : ℤ} {seen : ℕ} (hk : l.current = some k)
    (hc : l.counter = T + 1 + UInt64.ofNat seen) (files : List FileSet) :
    l.Reads (files.flatMap FileSet.records) ∧
      (files.flatMap FileSet.records).foldl step l = l.afterFiles T k seen files := by
  induction files generalizing l seen with
  | nil => exact ⟨trivial,by simp [afterFiles, fileKeys, txtCount, ← hc]⟩
  | cons s files ih =>
    obtain ⟨hr,hs⟩ := foldl_fileSet hk hc s
    obtain ⟨hr',hs'⟩ := @ih (l.afterFiles T k seen [s]) (seen + txtCount [s]) hk rfl
    rw [List.flatMap_cons, reads_append, List.foldl_append, hs]
    refine ⟨⟨hr,hr'⟩,hs'.trans ?_⟩
    simp [afterFiles, fileKeys, txtCount_cons s files, Nat.add_assoc]

theorem foldl_sets {l : Ledger} {seen : ℕ} (hc : l.counter = T + 1 + UInt64.ofNat seen)
    (sets : List ProcSet) : l.Reads (setRecords sets) ∧
      ((setRecords sets).foldl step l).procs = l.procs ++ sets.map ProcSet.number ∧
      ((setRecords sets).foldl step l).files = l.files ++
        (filed T seen sets).flatMap fun e => e.2.map fun j => (e.1.number,j) := by
  induction sets generalizing l seen with
  | nil => simp [setRecords, Reads, filed]
  | cons s sets ih =>
    have hp : l.step ⟨'p',s.pid,rfl⟩ =
        { l with current := some s.number, procs := l.procs ++ [s.number] } := rfl
    have hcurrent : (l.step ⟨'p',s.pid,rfl⟩).current = some s.number := by rw [hp]
    have hcounter : (l.step ⟨'p',s.pid,rfl⟩).counter = T + 1 + UInt64.ofNat seen := by
      rw [hp]
      exact hc
    obtain ⟨hr,hs⟩ := foldl_files hcurrent hcounter s.files
    obtain ⟨hr',hprocs,hfiles⟩ :=
      @ih ((l.step ⟨'p',s.pid,rfl⟩).afterFiles T s.number seen s.files) _ rfl
    have hready : l.Ready ⟨'p',s.pid,rfl⟩ := ⟨fun h => (by cases h),fun h => (by cases h)⟩
    change l.Reads (s.records ++ setRecords sets) ∧
      ((s.records ++ setRecords sets).foldl step l).procs = _ ∧
      ((s.records ++ setRecords sets).foldl step l).files = _
    rw [reads_append, List.foldl_append]
    have hall : s.records.foldl step l =
        (l.step ⟨'p',s.pid,rfl⟩).afterFiles T s.number seen s.files := hs
    rw [hall, hprocs, hfiles]
    refine ⟨⟨⟨hready,hr⟩,hr'⟩,?_,?_⟩
    · simp [afterFiles, hp]
    · simp [afterFiles, hp, filed]

end Ledger

/-- The pointers are set for a whole stream when they are for each record in turn. -/
theorem pointersSet_of_reads {T : UInt64} {rs : List Record} (h : (Ledger.init T).Reads rs) :
    PointersSet T rs := by
  rintro pre r post rfl
  exact (Ledger.reads_append.mp h).2.1

section
variable (T : UInt64) (sets : List ProcSet)

theorem ledger_sets_procs : (ledger T (setRecords sets)).procs = sets.map ProcSet.number := by
  simpa [ledger, Ledger.init] using
    (Ledger.foldl_sets (T := T) (Ledger.init_counter T) sets).2.1

theorem ledger_sets_files : (ledger T (setRecords sets)).files =
    (filed T 0 sets).flatMap fun e => e.2.map fun j => (e.1.number,j) := by
  simpa [ledger, Ledger.init] using
    (Ledger.foldl_sets (T := T) (Ledger.init_counter T) sets).2.2

/-- A stream of process sets is read to its end, into a store that refines its ledger. -/
theorem bufferedReadState_stream : ∃ st, bufferedReadState T ∅ (stream sets) = .ok st ∧
    run (readRecord T) (LsofLoop.init T ∅) (setRecords sets) = .ok st ∧
    st.Consistent ∧ st.Refines (ledger T (setRecords sets)) := by
  have hp := pointersSet_of_reads
    (Ledger.foldl_sets (T := T) (Ledger.init_counter T) sets).1
  obtain ⟨st,hst⟩ := (run_ok_iff_pointersSet T _).mpr hp
  exact ⟨st,by rw [stream, bufferedReadState_lines, hst],hst,LsofLoop.run_refines hst⟩

theorem entriesGiven_stream : entriesGiven T (stream sets) =
    (filed T 0 sets).flatMap fun e => e.2.map fun j => (e.1.number,j) := by
  obtain ⟨st,hst,_⟩ := bufferedReadState_stream T sets
  rw [stream, entriesGiven_lines hst, ledger_sets_files]

/-- One entry for each file set. -/
theorem entriesGiven_length :
    (entriesGiven T (stream sets)).length = (sets.flatMap ProcSet.files).length := by
  rw [entriesGiven_stream]
  suffices hg : ∀ seen, ((filed T seen sets).flatMap fun e => e.2.map fun j =>
      (e.1.number,j)).length = (sets.flatMap ProcSet.files).length from hg 0
  induction sets with
  | nil => intro seen; rfl
  | cons s l ih =>
    intro seen
    rw [filed, List.flatMap_cons, List.flatMap_cons, List.length_append, List.length_append, ih]
    simp

end
end Cphf
