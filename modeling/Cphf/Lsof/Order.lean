import Cphf.Lsof.Ledger

/-! Which orders of records `bufferedRead` can take: it trusts its pointers, so it is safe
exactly on the streams whose records come in the order `lsof` writes them. -/
namespace Cphf
open CLib

/-- Every `f` record has a process in force, and every `G` record a file. -/
def PointersSet (T : UInt64) (rs : List Record) : Prop :=
  ∀ pre r post, rs = pre ++ r :: post →
    (r.flag = some .fd → (ledger T pre).current ≠ none) ∧
    (r.flag = some .flags → (ledger T pre).files.getLast? ≠ none)

/-- Besides, the file's process is still the one in force at every `G` record. -/
def InOrder (T : UInt64) (rs : List Record) : Prop :=
  PointersSet T rs ∧ ∀ pre r post, rs = pre ++ r :: post → r.flag = some .flags →
    (ledger T pre).files.getLast?.map Prod.fst = (ledger T pre).current

/-- The loop reads a stream of complete records without a null pointer, and at every `G`
record the file it updates belongs to the process in force. -/
def NullSafe (T : UInt64) (rs : List Record) : Prop :=
  (∃ m, bufferedRead T ∅ (lines rs) = .ok m) ∧
  ∀ pre r post, rs = pre ++ r :: post → r.flag = some .flags →
    ∃ st k j, bufferedReadState T ∅ (lines pre) = .ok st ∧ st.ulf = some (k,j) ∧ st.pf = some k

namespace LsofLoop
variable {T : UInt64} {st : LsofLoop} {l : Ledger}

/-- A complete record is read exactly when the pointer it needs is set. -/
theorem readRecord_ok_iff (hc : st.Consistent) (h : st.Refines l) (r : Record) :
    (∃ st', readRecord T st r = .ok st') ↔
      (r.flag = some .fd → l.current ≠ none) ∧ (r.flag = some .flags → l.files.getLast? ≠ none) := by
  rw [readRecord, iterate_record hc.strbuff, ← h.pf, ← h.ulf]
  change (∃ st', outcome T st r.flag (some r.value.text) = .ok st') ↔ _
  unfold outcome
  cases hf : r.flag with
  | none => simp
  | some flag =>
    cases flag with
    | fd => cases st.pf <;> simp
    | pid => simp
    | flags =>
      cases hu : st.ulf with
      | none => simp
      | some e => simp

end LsofLoop

theorem bufferedRead_ok_iff {T : UInt64} {fin : Text} :
    (∃ m, bufferedRead T ∅ fin = .ok m) ↔ ∃ st, bufferedReadState T ∅ fin = .ok st := by
  simp only [bufferedRead, map_eq_ok]
  constructor
  · rintro ⟨m,st,h,_⟩
    exact ⟨st,h⟩
  · rintro ⟨st,h⟩
    exact ⟨_,st,h,rfl⟩

/-- A run over a whole stream passes through a run over each prefix. -/
lemma run_split {T : UInt64} {rs pre post : List Record} {r : Record} {st : LsofLoop}
    (h : run (readRecord T) (LsofLoop.init T ∅) rs = .ok st) (hs : rs = pre ++ r :: post) :
    ∃ u v : LsofLoop, run (readRecord T) (LsofLoop.init T ∅) pre = .ok u ∧ u.Consistent ∧
      u.Refines (ledger T pre) ∧ readRecord T u r = .ok v := by
  subst hs
  obtain ⟨u,hu,hrest⟩ := run_append_ok.mp h
  obtain ⟨v,hv,_⟩ := bind_eq_ok.mp hrest
  exact ⟨u,v,hu,(LsofLoop.run_refines hu).1,(LsofLoop.run_refines hu).2,hv⟩

/-- Records are read to the end of the stream exactly when each finds its pointer set. -/
theorem run_ok_iff_pointersSet (T : UInt64) (rs : List Record) :
    (∃ st, run (readRecord T) (LsofLoop.init T ∅) rs = .ok st) ↔ PointersSet T rs := by
  constructor
  · rintro ⟨st,hst⟩ pre r post hs
    obtain ⟨u,v,_,hc,hl,hv⟩ := run_split hst hs
    exact (LsofLoop.readRecord_ok_iff hc hl r).mp ⟨v,hv⟩
  · intro h
    have ht : ∃ st, run (readRecord T) (LsofLoop.init T ∅) rs = .ok st ∧
        st.Consistent ∧ st.Refines (ledger T rs) := by
      refine @run_total_history _ _ _ _
        (fun pre (st : LsofLoop) => st.Consistent ∧ st.Refines (ledger T pre)) rs _ ?_
        ⟨LsofLoop.init_consistent T,LsofLoop.init_refines T⟩
      rintro pre r st ⟨post,hp⟩ ⟨hc,hl⟩
      obtain ⟨st',hst⟩ := (LsofLoop.readRecord_ok_iff (T := T) hc hl r).mpr
        (h pre r post (by simpa using hp.symm))
      rw [ledger_snoc]
      exact ⟨st',hst,LsofLoop.iterate_consistent hc hst,LsofLoop.readRecord_refines hc hl hst⟩
    exact ht.imp fun st hst => hst.1

/-- The loop is safe on a stream of complete records exactly when every `f` record follows a
`p` record, and every `G` record follows an `f` record of the process still in force. -/
theorem nullSafe_iff_inOrder (T : UInt64) (rs : List Record) : NullSafe T rs ↔ InOrder T rs := by
  unfold NullSafe InOrder
  rw [bufferedRead_ok_iff]
  simp only [bufferedReadState_lines]
  rw [run_ok_iff_pointersSet, and_congr_right_iff]
  intro hset
  obtain ⟨st,hst⟩ := (run_ok_iff_pointersSet T rs).mpr hset
  refine forall₄_congr fun pre r post hs => forall_congr' fun hr => ?_
  obtain ⟨u,v,hu,hc,hl,_⟩ := run_split hst hs
  obtain ⟨⟨k,j⟩,hk⟩ := Option.ne_none_iff_exists'.mp ((hset pre r post hs).2 hr)
  have hulf : u.ulf = some (k,j) := by rw [hl.ulf, hk]
  rw [hk, ← hl.pf, hu]
  constructor
  · rintro ⟨w,k',j',hw,hw',hp⟩
    cases hw
    cases hulf.symm.trans hw'
    exact hp.symm
  · intro hp
    exact ⟨u,k,j,rfl,hulf,hp.symm⟩

/-- An `f` record at the front of the stream goes through the null process pointer, and a
`G` record right after a `p` record updates a file of the process before. -/
theorem not_nullSafe_out_of_order :
    ¬ NullSafe 1025 [.of 'f' "3".toList (by decide)] ∧
    ¬ NullSafe 1025 [.of 'p' "1".toList (by decide),.of 'f' "3".toList (by decide),
      .of 'p' "2".toList (by decide),.of 'G' "R".toList (by decide)] := by
  constructor
  · rintro ⟨⟨m,hm⟩,_⟩
    have he : bufferedRead 1025 ∅ "f3\n".toList = .error .nullProcess := rfl
    cases he.symm.trans hm
  · rintro ⟨_,hG⟩
    obtain ⟨st,k,j,hst,hu,hp⟩ := hG [.of 'p' "1".toList (by decide),.of 'f' "3".toList (by decide),
      .of 'p' "2".toList (by decide)] (.of 'G' "R".toList (by decide)) [] rfl rfl
    have he : (fun st => (st.ulf,st.pf)) <$> bufferedReadState 1025 ∅ "p1\nf3\np2\n".toList =
        .ok (some (1,3),some 2) := by decide +kernel
    have hs : (fun st => (st.ulf,st.pf)) <$> bufferedReadState 1025 ∅ "p1\nf3\np2\n".toList =
        .ok (st.ulf,st.pf) := congrArg _ hst
    rw [hs, hu, hp] at he
    simp only [Except.ok.injEq, Prod.mk.injEq, Option.some.injEq] at he
    omega

end Cphf
