import Cphf.Lsof.Order

/-! A stream that ends inside a record. The loop goes on after one conversion, so a cut
record is processed with whatever value it has, or with the one before it. -/
namespace Cphf
open CLib

namespace LsofLoop
variable {T : UInt64} {st : LsofLoop}

lemma afterPid_procMap_ne (w : Text) : (st.afterPid w).procMap ≠ st.procMap := by
  intro h
  have hk : (st.afterPid w).procMap.find? (atoi (c_str w)) = _ := find?_afterPid w _
  rw [h, if_pos rfl] at hk
  cases ho : st.procMap.find? (atoi (c_str w)) with
  | none => rw [ho] at hk; cases hk
  | some p =>
    rw [ho, Option.getD_some, Option.some.injEq] at hk
    have hl := congrArg (fun p : ProcFile => p.attributes.length) hk
    simp [ProcFile.addAttribute] at hl

lemma afterFlags_procMap_ne (hc : st.Consistent) {p j : ℤ} (hu : st.ulf = some (p,j))
    (charbuff : Option Text) : (st.afterFlags p j charbuff).procMap ≠ st.procMap := by
  intro h
  obtain ⟨pf,u,hpf,hf⟩ := hc.ulf p j hu
  have he : fileAt (st.afterFlags p j charbuff).procMap (p,j) = _ := fileAt_afterFlags (p,j)
  have hold : fileAt st.procMap (p,j) = some u := by simp [fileAt, hpf, hf]
  rw [h, if_pos rfl, hold, Option.map_some, Option.some.injEq] at he
  have hl := congrArg (fun u : UnlinkedFile => u.attributes.length) he
  simp [UnlinkedFile.addAttribute] at hl

/-- Filing a record changes nothing exactly when its entry is there already. -/
lemma afterFd_procMap_eq_iff (hc : st.Consistent) {p : ℤ} (hp : st.pf = some p) (w : Text) :
    (st.afterFd T p w).procMap = st.procMap ↔
      (fileAt st.procMap (p,fileKey (st.numberOf w))).isSome := by
  obtain ⟨pf,hpf⟩ := (hc.pf p hp).2
  constructor
  · intro h
    rw [← h, fileAt_afterFd hpf, if_pos rfl]
    rfl
  · intro h
    simp only [afterFd]
    apply OMap.modify_eq_self
    intro q hq
    cases hpf.symm.trans hq
    obtain ⟨u,hu⟩ := Option.isSome_iff_exists.mp h
    have hf : pf.ulFiles.find? (fileKey (st.numberOf w)) = some u := by
      simpa [fileAt, hpf] using hu
    simp only [ProcFile.addFile, OMap.insertNew_of_mem hf]

/-- What a token leaves unchanged: it must be unknown, or an `f` whose entry exists. -/
theorem procMap_iterate_eq_iff (hc : st.Consistent) {t : Token} {w : Text}
    (he : st.effective t = some w) (hv : ∀ v, t.value = some v → v.length < bufferSize) :
    LsofLoop.procMap <$> st.iterate T t = .ok st.procMap ↔
      LsofFlag.ofChar t.lsofid = none ∨ (LsofFlag.ofChar t.lsofid = some .fd ∧
        ∃ k, st.pf = some k ∧ (fileAt st.procMap (k,fileKey (st.numberOf w))).isSome) := by
  rw [iterate_eq hc.strbuff hv, he, map_eq_ok]
  cases LsofFlag.ofChar t.lsofid with
  | none => simp [outcome]
  | some flag =>
    cases flag with
    | fd =>
      cases hp : st.pf with
      | none => simp [outcome, hp]
      | some p => simp [outcome, hp, afterFd_procMap_eq_iff hc hp]
    | pid => simp [outcome, afterPid_procMap_ne]
    | flags =>
      cases hu : st.ulf with
      | none => simp [outcome, hu]
      | some e =>
        obtain ⟨p,j⟩ := e
        simp [outcome, hu, afterFlags_procMap_ne hc hu]

theorem readRecord_charbuff {st' : LsofLoop} {r : Record} (hc : st.Consistent)
    (h : readRecord T st r = .ok st') : st'.charbuff = some r.value.text := by
  rw [readRecord, iterate_record hc.strbuff] at h
  rcases outcome_cases h with ⟨_,p,w,_,hw,rfl⟩ | ⟨_,p,j,_,rfl⟩ | ⟨_,w,hw,rfl⟩ | ⟨_,rfl⟩
  · exact hw.symm
  · rfl
  · exact hw.symm
  · rfl

/-- After some complete records the buffer holds the value of the last one. -/
theorem run_charbuff {rs : List Record} {r : Record}
    (h : run (readRecord T) (init T ∅) (rs ++ [r]) = .ok st) :
    st.charbuff = some r.value.text := by
  obtain ⟨u,hu,ht⟩ := run_snoc_ok.mp h
  exact readRecord_charbuff (run_refines hu).1 ht

end LsofLoop

/-- The cut record `s` after the complete records `rs`, whose last one is `last`, is nothing,
or carries an unknown identifier, or is an `f` record whose entry is in the ledger already. -/
def HarmlessCut (T : UInt64) (rs : List Record) (last : Record) : Text → Prop
  | [] => True
  | c :: v =>
    LsofFlag.ofChar c = none ∨ (LsofFlag.ofChar c = some .fd ∧ ∃ k,
      (ledger T rs).current = some k ∧
      (k,fileKey ((ledger T rs).number (c_str (if v = [] then last.value.text else v)))) ∈
        (ledger T rs).files)

/-- One token more: the store stays as it is exactly when the token is harmless. -/
lemma bufferedRead_snoc {T : UInt64} {rs : List Record} {s : Text} {t : Token} {st : LsofLoop}
    (hs : AtBoundary s) (ht : tokens s = [t])
    (h : run (readRecord T) (LsofLoop.init T ∅) rs = .ok st) :
    bufferedRead T ∅ (lines rs ++ s) = LsofLoop.procMap <$> st.iterate T t := by
  rw [bufferedRead, bufferedReadState_eq_run, tokens_lines_append rs hs, ht, run_append,
    run_tokens, h, ok_bind, run_singleton]

/-- Complete records are read to their end exactly when none goes through a null pointer. -/
lemma bufferedRead_lines_completes_iff {T : UInt64} {rs : List Record} :
    Completes (bufferedRead T ∅ (lines rs)) ↔ PointersSet T rs := by
  rw [← run_ok_iff_pointersSet, bufferedRead, bufferedReadState_lines]
  exact completes_map

lemma bufferedRead_cut_eq (T : UInt64) (rs : List Record) (last : Record) (r : Record)
    (s : Text) (hp : s <+: r.line) (hne : s ≠ r.line) :
    bufferedRead T ∅ (lines (rs ++ [last]) ++ s) = bufferedRead T ∅ (lines (rs ++ [last])) ↔
      (PointersSet T (rs ++ [last]) → HarmlessCut T (rs ++ [last]) last s) := by
  have hwhole : ∀ st, run (readRecord T) (LsofLoop.init T ∅) (rs ++ [last]) = .ok st →
      bufferedRead T ∅ (lines (rs ++ [last])) = .ok st.procMap := by
    intro st h
    rw [bufferedRead, bufferedReadState_lines, h]
    rfl
  by_cases hset : PointersSet T (rs ++ [last])
  · obtain ⟨st,h⟩ := (run_ok_iff_pointersSet T _).mpr hset
    obtain ⟨hc,hl⟩ := LsofLoop.run_refines h
    have hbuf := LsofLoop.run_charbuff h
    have hnum : ∀ w, st.numberOf w = (ledger T (rs ++ [last])).number (c_str w) := fun w => by
      simp only [LsofLoop.numberOf, Ledger.number, hl.counter]
    simp only [hset, true_imp_iff, hwhole st h]
    rcases strict_prefix_line hp hne with rfl | rfl | ⟨v,_,rfl⟩
    · simp [HarmlessCut, hwhole st h]
    · have ht := tokens_id (c := r.id)
      rw [bufferedRead_snoc (skipSpace_cons_of_not r.id_visible _) ht h,
        LsofLoop.procMap_iterate_eq_iff hc (w := last.value.text)]
      · simp [HarmlessCut, hl.pf, hl.files, hnum]
      · simpa [LsofLoop.effective] using hbuf
      · simp
    · have ht := tokens_cut r.id v
      rw [bufferedRead_snoc (skipSpace_cons_of_not r.id_visible _) ht h,
        LsofLoop.procMap_iterate_eq_iff hc (w := v.text)]
      · simp [HarmlessCut, hl.pf, hl.files, hnum, v.isWord.1]
      · simp [LsofLoop.effective]
      · simpa using v.short
  · simp only [hset, false_imp_iff, iff_true]
    have herr : ∀ st, run (readRecord T) (LsofLoop.init T ∅) (rs ++ [last]) ≠ .ok st :=
      fun st h => hset ((run_ok_iff_pointersSet T _).mp ⟨st,h⟩)
    have hs : AtBoundary s := by
      rcases strict_prefix_line hp hne with rfl | rfl | ⟨v,_,rfl⟩
      · rfl
      · exact skipSpace_cons_of_not r.id_visible _
      · exact skipSpace_cons_of_not r.id_visible _
    rw [bufferedRead, bufferedRead, bufferedReadState_lines, bufferedReadState_eq_run,
      tokens_lines_append _ hs, run_append, run_tokens]
    cases he : run (readRecord T) (LsofLoop.init T ∅) (rs ++ [last]) with
    | error e => rfl
    | ok st => exact absurd he (herr st)

/-- A cut record leaves the store alone exactly when it is harmless, or the complete records
before it already take the loop through a null pointer. Both streams are read to their end, with
one store, exactly when these do not and it is harmless. -/
theorem bufferedRead_cut_eq_iff (T : UInt64) (rs : List Record) (last : Record) (r : Record)
    (s : Text) (hp : s <+: r.line) (hne : s ≠ r.line) :
    (bufferedRead T ∅ (lines (rs ++ [last]) ++ s) = bufferedRead T ∅ (lines (rs ++ [last])) ↔
      (PointersSet T (rs ++ [last]) → HarmlessCut T (rs ++ [last]) last s)) ∧
    ((∃ m, bufferedRead T ∅ (lines (rs ++ [last]) ++ s) = .ok m ∧
        bufferedRead T ∅ (lines (rs ++ [last])) = .ok m) ↔
      PointersSet T (rs ++ [last]) ∧ HarmlessCut T (rs ++ [last]) last s) := by
  have heq := bufferedRead_cut_eq T rs last r s hp hne
  refine ⟨heq,?_,?_⟩
  · rintro ⟨m,hcut,hwhole⟩
    have hset := bufferedRead_lines_completes_iff.mp ⟨m,hwhole⟩
    exact ⟨hset,heq.mp (hcut.trans hwhole.symm) hset⟩
  · rintro ⟨hset,hharmless⟩
    obtain ⟨m,hwhole⟩ := bufferedRead_lines_completes_iff.mpr hset
    exact ⟨m,(heq.mpr fun _ => hharmless).trans hwhole,hwhole⟩

/-- A cut `f` record after a complete one is filed under that one's descriptor again. -/
theorem bufferedRead_cut_eq_descriptor :
    ∃ m, bufferedRead 1025 ∅ "p1\nf3\nf".toList = .ok m ∧
      bufferedRead 1025 ∅ "p1\nf3\n".toList = .ok m := by
  have hset : PointersSet 1025 [.of 'p' "1".toList (by decide),.of 'f' "3".toList (by decide)] := by
    rw [← bufferedRead_lines_completes_iff]
    have hok : (·.entries.length) <$> bufferedRead 1025 ∅ "p1\nf3\n".toList = .ok 1 := by
      decide +kernel
    exact completes_map.mp ⟨_,hok⟩
  exact (bufferedRead_cut_eq_iff 1025 [.of 'p' "1".toList (by decide)]
    (.of 'f' "3".toList (by decide)) (.of 'f' "4".toList (by decide)) ['f'] (by decide)
    (by decide)).2.mpr ⟨hset,.inr ⟨rfl,1,by decide +kernel,by decide +kernel⟩⟩

/-- The identifier of a cut `p` record adds the attribute of the process before once more. -/
theorem bufferedRead_cut_ne :
    bufferedRead 1025 ∅ "p1\np".toList ≠ bufferedRead 1025 ∅ "p1\n".toList := by
  intro h
  have hl := congrArg (Functor.map fun m : ProcMap => m.entries.map fun e => e.2.attributes) h
  have hcut : (fun m : ProcMap => m.entries.map fun e => e.2.attributes) <$>
      bufferedRead 1025 ∅ "p1\np".toList = .ok [[(.pid,['1']),(.pid,['1'])]] := by decide +kernel
  have hwhole : (fun m : ProcMap => m.entries.map fun e => e.2.attributes) <$>
      bufferedRead 1025 ∅ "p1\n".toList = .ok [[(.pid,['1'])]] := by decide +kernel
  rw [hcut, hwhole] at hl
  simp at hl

end Cphf
