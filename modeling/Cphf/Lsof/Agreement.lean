import Cphf.Lsof.Steps

/-! The store's identifiers agree after every iteration of `bufferedRead`: a process and its
files carry the numbers they are filed under, and the other readers ask `/proc` for those. -/
namespace Cphf
open CLib

def Token.flag (t : Token) : Option LsofFlag := LsofFlag.ofChar t.lsofid

/-- A stream that opens with a complete `p` record, whose values fit the buffer and which has no
`G` record before its first `f` record. -/
structure OpensWithProcess (fin : Text) : Prop where
  first : ∃ t w, (tokens fin).head? = some t ∧ t.flag = some .pid ∧ t.value = some w
  short : ∀ t ∈ tokens fin, ∀ w, t.value = some w → w.length < bufferSize
  inOrder : ∀ t ∈ (tokens fin).takeWhile (fun t => t.flag ≠ some .fd), t.flag ≠ some .flags

/-- Every process and file carries the numbers it is filed under, and what `FileStatReader` is
passed on for a file names it and the process `ProcReader` reads. -/
structure StoreAgrees (m : ProcMap) : Prop where
  atKey : ∀ k p, m.find? k = some p → p.AtKey k
  passedOn : ∀ k p j u, m.find? k = some p → p.ulFiles.find? j = some u →
    p.passedOn j = (u.fid,u.pid) ∧ u.pid = asUInt32 k

theorem storeAgrees_of_atKey {m : ProcMap} (h : ∀ k p, m.find? k = some p → p.AtKey k) :
    StoreAgrees m := by
  refine ⟨h,fun k p j u hp hu => ?_⟩
  obtain ⟨hpid,hfid⟩ := (h k p hp).files j u hu
  exact ⟨by rw [ProcFile.passedOn, (h k p hp).pid, hpid, hfid],hpid⟩

/-- The tokens of the first rounds are the first tokens. -/
theorem tokensUpTo_start (n : ℕ) (fin : Text) : tokensUpTo n fin <+: tokens fin := by
  induction n generalizing fin with
  | zero => exact List.nil_prefix
  | succ n ih =>
    unfold tokensUpTo
    cases h : nextToken fin with
    | none => exact List.nil_prefix
    | some r =>
      obtain ⟨t,rest⟩ := r
      rw [tokens_of_some h]
      exact List.cons_prefix_cons.mpr ⟨rfl,ih rest⟩

namespace LsofLoop
variable {T : UInt64} {st : LsofLoop}

/-- What is set once the given tokens have been read. -/
structure Underway (pre : List Token) (st : LsofLoop) : Prop where
  consistent : st.Consistent
  pf : pre ≠ [] → st.pf.isSome
  charbuff : pre ≠ [] → st.charbuff.isSome
  ulf : (∃ t ∈ pre, t.flag = some .fd) → st.ulf.isSome

theorem init_underway (T : UInt64) : (init T ∅).Underway [] :=
  ⟨init_consistent T,by simp,by simp,by simp⟩

theorem outcome_of_set {flag : Option LsofFlag} {w : Text}
    (hpf : flag = some .fd → st.pf.isSome) (hulf : flag = some .flags → st.ulf.isSome) :
    ∃ st', st.outcome T flag (some w) = .ok st' := by
  unfold outcome
  cases flag with
  | none => exact ⟨_,rfl⟩
  | some f =>
    cases f with
    | pid => exact ⟨_,rfl⟩
    | fd =>
      obtain ⟨p,hp⟩ := Option.isSome_iff_exists.mp (hpf rfl)
      simp [hp]
    | flags =>
      obtain ⟨e,he⟩ := Option.isSome_iff_exists.mp (hulf rfl)
      simp [he]

/-- An iteration that finds what it needs set leaves set what the next ones need. -/
theorem iterate_underway {pre : List Token} {t : Token} (h : st.Underway pre)
    (hv : ∀ w, t.value = some w → w.length < bufferSize)
    (hpf : st.pf.isSome ∨ t.flag = some .pid)
    (hbuf : (st.effective t).isSome)
    (hulf : t.flag = some .flags → ∃ u ∈ pre, u.flag = some .fd) :
    ∃ st', st.iterate T t = .ok st' ∧ st'.Underway (pre ++ [t]) := by
  obtain ⟨w,hw⟩ := Option.isSome_iff_exists.mp hbuf
  obtain ⟨st',hst⟩ : ∃ st', st.outcome T t.flag (some w) = .ok st' := by
    refine outcome_of_set (fun hf => ?_) fun hf => h.ulf (hulf hf)
    rcases hpf with hpf | hpid
    · exact hpf
    · cases hf.symm.trans hpid
  have hit : st.iterate T t = .ok st' := by
    rw [iterate_eq h.consistent.strbuff hv, hw]
    exact hst
  refine ⟨st',hit,iterate_consistent h.consistent hit,fun _ => ?_,fun _ => ?_,?_⟩
  · rcases outcome_cases hst with ⟨_,p,_,hp,_,rfl⟩ | ⟨hf,_,_,_,rfl⟩ | ⟨_,_,_,rfl⟩ | ⟨hf,rfl⟩
    · exact Option.isSome_iff_exists.mpr ⟨p,hp⟩
    · exact hpf.resolve_right (by simp [hf])
    · rfl
    · exact hpf.resolve_right (by simp [hf])
  · rcases outcome_cases hst with ⟨_,_,_,_,_,rfl⟩ | ⟨_,_,_,_,rfl⟩ | ⟨_,_,_,rfl⟩ | ⟨_,rfl⟩ <;> rfl
  · rintro ⟨u,hu,hfd⟩
    rcases outcome_cases hst with ⟨_,_,_,_,_,rfl⟩ | ⟨_,_,_,he,rfl⟩ | ⟨hf,_,_,rfl⟩ | ⟨hf,rfl⟩
    · rfl
    · exact Option.isSome_iff_exists.mpr ⟨_,he⟩
    · rcases List.mem_append.mp hu with hu | hu
      · exact h.ulf ⟨u,hu,hfd⟩
      · rw [List.mem_singleton.mp hu, hf] at hfd
        cases hfd
    · rcases List.mem_append.mp hu with hu | hu
      · exact h.ulf ⟨u,hu,hfd⟩
      · rw [List.mem_singleton.mp hu, hf] at hfd
        cases hfd

/-- The loop reads the first tokens of such a stream without a fault. -/
theorem run_underway {fin : Text} (h : OpensWithProcess fin) {ts : List Token}
    (hts : ts <+: tokens fin) :
    ∃ st, run (iterate T) (init T ∅) ts = .ok st ∧ st.Underway ts := by
  refine run_total_history (fun pre t st hp hst => ?_) (init_underway T)
  have hpre := hp.trans hts
  obtain ⟨first,w,hhead,hpid,hw⟩ := h.first
  have hnil : pre = [] → t = first := by
    rintro rfl
    obtain ⟨post,hpost⟩ := hpre
    rw [← hpost] at hhead
    simpa using hhead
  refine iterate_underway hst (h.short t (hpre.subset (by simp))) ?_ ?_ fun hf => ?_
  · by_cases he : pre = []
    · rw [hnil he]
      exact .inr hpid
    · exact .inl (hst.pf he)
  · by_cases he : pre = []
    · rw [hnil he, effective, hw]
      rfl
    · obtain ⟨v,hv⟩ := Option.isSome_iff_exists.mp (hst.charbuff he)
      rw [effective, hv]
      cases t.value <;> rfl
  · by_contra hno
    push Not at hno
    obtain ⟨post,hpost⟩ := hpre
    refine h.inOrder t ?_ hf
    rw [← hpost, List.takeWhile_append_of_pos]
    · simp
    · intro u hu
      rcases List.mem_append.mp hu with hu | hu
      · simpa using hno u hu
      · simp [List.mem_singleton.mp hu, hf]

end LsofLoop

/-- After any number of iterations over such a stream, the store's identifiers agree. -/
theorem bufferedRead_agrees (T : UInt64) {fin : Text} (h : OpensWithProcess fin) (n : ℕ) :
    ∃ st, bufferedReadLoop T n (LsofLoop.init T ∅) fin = .ok st ∧ StoreAgrees st.procMap := by
  rw [bufferedReadLoop_eq_run]
  obtain ⟨st,hst,hu⟩ := LsofLoop.run_underway (T := T) h (tokensUpTo_start n fin)
  exact ⟨st,hst,storeAgrees_of_atKey hu.consistent.procs⟩

/-- A stream with a repeated process, a repeated descriptor and a cut last record. -/
theorem bufferedRead_agrees_repeated : ∃ st, bufferedReadLoop 1025 6 (LsofLoop.init 1025 ∅)
    "p7\nf3\nGR\np7\nf3\nf".toList = .ok st ∧ StoreAgrees st.procMap :=
  bufferedRead_agrees 1025
    ⟨⟨⟨'p',some "7".toList⟩,"7".toList,by decide +kernel⟩,by decide +kernel,by decide +kernel⟩ 6

end Cphf
