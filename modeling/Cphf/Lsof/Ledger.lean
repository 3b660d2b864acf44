import Cphf.Lsof.Steps

/-! What a field stream says, without objects and pointers: the process in force, the
processes named so far, and the entry each `f` record is filed under. The reader's loop
refines this ledger. -/
namespace Cphf
open CLib

def Record.flag (r : Record) : Option LsofFlag := LsofFlag.ofChar r.id

/-- The record's value as the reader sees it, up to the first NUL. -/
def Record.text (r : Record) : Text := c_str r.value.text

structure Ledger where
  current : Option ℤ
  counter : UInt64
  procs : List ℤ
  files : List (ℤ × ℤ)

namespace Ledger

def init (T : UInt64) : Ledger := ⟨none,T+1,[],[]⟩

/-- The number the next `f` record with this text is filed under. -/
def number (l : Ledger) (text : Text) : UInt64 :=
  if text = "txt".toList then l.counter else asUInt64 (atoi text)

def step (l : Ledger) (r : Record) : Ledger :=
  match r.flag with
  | some .pid => { l with current := some (atoi r.text), procs := l.procs ++ [atoi r.text] }
  | some .fd =>
    match l.current with
    | none => l
    | some k => { l with
        counter := if r.text = "txt".toList then l.counter + 1 else l.counter
        files := l.files ++ [(k,fileKey (l.number r.text))] }
  | _ => l

end Ledger

def ledger (T : UInt64) (rs : List Record) : Ledger := rs.foldl Ledger.step (Ledger.init T)

@[simp] theorem ledger_nil (T : UInt64) : ledger T [] = Ledger.init T := rfl

@[simp] theorem ledger_snoc (T : UInt64) (rs : List Record) (r : Record) :
    ledger T (rs ++ [r]) = (ledger T rs).step r := by simp [ledger]

/-- The reader's variables refine the ledger: same processes, same entries, and the
pointers are the process in force and the last entry. -/
structure LsofLoop.Refines (st : LsofLoop) (l : Ledger) : Prop where
  pf : st.pf = l.current
  counter : st.txt_fd_counter = l.counter
  ulf : st.ulf = l.files.getLast?
  procs : ∀ k, (st.procMap.find? k).isSome ↔ k ∈ l.procs
  files : ∀ e, (fileAt st.procMap e).isSome ↔ e ∈ l.files

/-- One iteration on a complete record. -/
def readRecord (T : UInt64) (st : LsofLoop) (r : Record) : Except Fault LsofLoop :=
  st.iterate T r.token

theorem bufferedReadState_lines (T : UInt64) (m : ProcMap) (rs : List Record) :
    bufferedReadState T m (lines rs) = run (readRecord T) (LsofLoop.init T m) rs := by
  rw [bufferedReadState_eq_run, tokens_lines, run_map]
  rfl

namespace LsofLoop
variable {T : UInt64} {st st' : LsofLoop} {l : Ledger}

theorem init_refines (T : UInt64) : (LsofLoop.init T ∅).Refines (Ledger.init T) where
  pf := rfl
  counter := rfl
  ulf := rfl
  procs k := by simp [LsofLoop.init, Ledger.init]
  files e := by simp [LsofLoop.init, Ledger.init, fileAt]

theorem fileAt_afterFd {p : ℤ} {pf : ProcFile} (hf : st.procMap.find? p = some pf) (w : Text)
    (e : ℤ × ℤ) : fileAt (st.afterFd T p w).procMap e = if e = (p,fileKey (st.numberOf w)) then
      some ((fileAt st.procMap e).getD (UnlinkedFile.new T st.pid (st.numberOf w)))
      else fileAt st.procMap e := by
  obtain ⟨k,j⟩ := e
  rw [fileAt, find?_afterFd hf]
  by_cases hk : k = p
  · subst hk
    by_cases hj : j = fileKey (st.numberOf w)
    · simp [ProcFile.addFile, hj, fileAt, hf]
    · simp [ProcFile.addFile, OMap.find?_insertNew, hj, fileAt, hf]
  · simp [hk, fileAt]

theorem fileAt_afterFlags {p j : ℤ} {charbuff : Option Text} (e : ℤ × ℤ) :
    fileAt (st.afterFlags p j charbuff).procMap e = if e = (p,j) then
      (fileAt st.procMap e).map (·.addAttribute .flags []) else fileAt st.procMap e := by
  obtain ⟨k,i⟩ := e
  rw [fileAt, find?_afterFlags]
  by_cases hk : k = p
  · subst hk
    by_cases hi : i = j
    · subst hi
      cases h : st.procMap.find? k <;> simp [fileAt, OMap.find?_modify, h]
    · cases h : st.procMap.find? k <;> simp [fileAt, OMap.find?_modify, h, hi]
  · simp [hk, fileAt]

theorem fileAt_afterPid (w : Text) (e : ℤ × ℤ) :
    fileAt (st.afterPid w).procMap e = fileAt st.procMap e := by
  rw [fileAt, find?_afterPid]
  split_ifs with hk
  · rw [← hk]
    cases h : st.procMap.find? e.1 <;> simp [fileAt, h, ProcFile.new]
  · rfl

theorem afterFd_refines (h : st.Refines l) {p : ℤ} {pf : ProcFile} (hp : st.pf = some p)
    (hpf : st.procMap.find? p = some pf) {r : Record} (hfl : r.flag = some .fd) :
    (st.afterFd T p r.value.text).Refines (l.step r) := by
  have hnum : ∀ w, st.numberOf w = l.number (c_str w) := by
    intro w
    simp only [numberOf, Ledger.number, h.counter]
  have hcur : l.current = some p := by rw [← h.pf, hp]
  have hstep : l.step r = { l with
      counter := if r.text = "txt".toList then l.counter + 1 else l.counter
      files := l.files ++ [(p,fileKey (l.number r.text))] } := by
    simp only [Ledger.step, hfl, hcur]
  rw [hstep]
  constructor
  · exact h.pf
  · simp only [afterFd, counterAfter, h.counter]
    rfl
  · simp [afterFd, hnum, Record.text]
  · intro k
    rw [find?_afterFd hpf, ← h.procs k]
    split_ifs with hk
    · simp [hk, hpf]
    · rfl
  · intro e
    rw [fileAt_afterFd hpf, List.mem_append, ← h.files e, hnum]
    split_ifs with he
    · simp [he, Record.text]
    · simp [he, Record.text]

theorem afterFlags_refines (h : st.Refines l) (p j : ℤ) (charbuff : Option Text) :
    (st.afterFlags p j charbuff).Refines l := by
  refine ⟨h.pf,h.counter,h.ulf,?_,?_⟩
  · intro k
    rw [find?_afterFlags, ← h.procs k]
    split_ifs with hk
    · simp [hk]
    · rfl
  · intro e
    rw [fileAt_afterFlags, ← h.files e]
    split_ifs <;> simp

theorem afterPid_refines (h : st.Refines l) {r : Record} (hfl : r.flag = some .pid) :
    (st.afterPid r.value.text).Refines (l.step r) := by
  have hstep : l.step r =
      { l with current := some (atoi r.text), procs := l.procs ++ [atoi r.text] } := by
    simp only [Ledger.step, hfl]
  rw [hstep]
  refine ⟨rfl,h.counter,h.ulf,?_,?_⟩
  · intro k
    rw [find?_afterPid]
    split_ifs with hk
    · simp [hk, Record.text]
    · simp [h.procs k, hk, Record.text]
  · intro e
    rw [fileAt_afterPid, h.files]

/-- One complete record takes reader and ledger to corresponding states. -/
theorem readRecord_refines {r : Record} (hc : st.Consistent) (h : st.Refines l)
    (hr : readRecord T st r = .ok st') : st'.Refines (l.step r) := by
  rw [readRecord, iterate_record (T := T) hc.strbuff r] at hr
  rcases outcome_cases hr with ⟨hfl,p,w,hp,hw,rfl⟩ | ⟨hfl,p,j,hu,rfl⟩ | ⟨hfl,w,hw,rfl⟩ | ⟨hfl,rfl⟩
  · cases hw
    obtain ⟨pf,hpf⟩ := (hc.pf p hp).2
    exact afterFd_refines h hp hpf hfl
  · have hstep : l.step r = l := by simp only [Ledger.step, Record.flag, hfl]
    rw [hstep]
    exact afterFlags_refines h p j _
  · cases hw
    exact afterPid_refines h hfl
  · have hstep : l.step r = l := by simp only [Ledger.step, Record.flag, hfl]
    rw [hstep]
    exact ⟨h.pf,h.counter,h.ulf,h.procs,h.files⟩

/-- A run of the reader over complete records refines the ledger of those records. -/
theorem run_refines {rs : List Record} (h : run (readRecord T) (init T ∅) rs = .ok st) :
    st.Consistent ∧ st.Refines (ledger T rs) := by
  refine run_history (I := fun pre st => st.Consistent ∧ st.Refines (ledger T pre)) ?_
    ⟨init_consistent T,init_refines T⟩ h
  rintro pre r s t ⟨hc,hl⟩ hr
  rw [ledger_snoc]
  exact ⟨iterate_consistent hc hr,readRecord_refines hc hl hr⟩

end LsofLoop

/-- The entry `addFile` returned for each `f` record of a stream, in stream order. -/
def entriesGiven (T : UInt64) (fin : Text) : List (ℤ × ℤ) :=
  ((tokens fin).zip (states (LsofLoop.iterate T) (LsofLoop.init T ∅) (tokens fin))).filterMap
    fun e => if LsofFlag.ofChar e.1.lsofid = some .fd then e.2.ulf else none

lemma run_tokens (T : UInt64) (st : LsofLoop) (rs : List Record) :
    run (LsofLoop.iterate T) st (rs.map Record.token) = run (readRecord T) st rs :=
  run_map Record.token st rs

/-- A record that succeeds and is an `f` record adds one entry, which `ulf` then holds. -/
lemma ledger_files_step {T : UInt64} {rs : List Record} {r : Record} {st : LsofLoop}
    (h : run (readRecord T) (LsofLoop.init T ∅) (rs ++ [r]) = .ok st) :
    (ledger T (rs ++ [r])).files = (ledger T rs).files ++
      (if r.flag = some .fd then st.ulf else none).toList := by
  have hr := (LsofLoop.run_refines h).2
  rw [hr.ulf, ledger_snoc]
  unfold Ledger.step
  split
  · rename_i hf
    simp [hf]
  · rename_i hf
    split
    · rename_i hc
      obtain ⟨u,hu,ht⟩ := run_snoc_ok.mp h
      obtain ⟨hcu,hru⟩ := LsofLoop.run_refines hu
      rw [readRecord, LsofLoop.iterate_record hcu.strbuff, show LsofFlag.ofChar r.id = _ from hf]
        at ht
      simp [LsofLoop.outcome, hru.pf, hc] at ht
    · simp [hf]
  · rename_i _ hf
    simp [show r.flag ≠ some .fd from hf]

/-- The entries given out are those the ledger lists. -/
theorem entriesGiven_lines {T : UInt64} {rs : List Record} {st : LsofLoop}
    (h : bufferedReadState T ∅ (lines rs) = .ok st) :
    entriesGiven T (lines rs) = (ledger T rs).files := by
  rw [bufferedReadState_lines] at h
  unfold entriesGiven
  rw [tokens_lines]
  induction rs using List.reverseRecOn generalizing st with
  | nil => rfl
  | append_singleton rs r ih =>
    obtain ⟨u,hu,ht⟩ := run_snoc_ok.mp h
    have hu' := (run_tokens T (LsofLoop.init T ∅) rs).trans hu
    rw [List.map_append, List.map_singleton, states_snoc hu' ht,
      List.zip_append (states_length hu').symm, List.filterMap_append, ih hu, ledger_files_step h]
    congr 1

end Cphf
