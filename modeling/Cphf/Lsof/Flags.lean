import Cphf.Lsof.ProcessSets

/-! File flags. The value of a `G` record is read into the buffer, while the attribute takes
the string stream, which only the other two kinds of record fill. -/
namespace Cphf
open CLib

namespace LsofLoop
variable {T : UInt64} {st st' : LsofLoop}

/-- The attributes of the files in the store, after the records `rs`: each is an empty
`File Flags`, and a `G` record brought it. -/
def FlagsEmpty (rs : List Record) (st : LsofLoop) : Prop :=
  ∀ e u, fileAt st.procMap e = some u →
    ∀ a ∈ u.attributes, a = (.flags,[]) ∧ ∃ r ∈ rs, r.flag = some .flags

theorem readRecord_flagsEmpty {rs : List Record} {r : Record} (hc : st.Consistent)
    (h : st.FlagsEmpty rs) (hr : readRecord T st r = .ok st') : st'.FlagsEmpty (rs ++ [r]) := by
  have hold : ∀ e u, fileAt st.procMap e = some u →
      ∀ a ∈ u.attributes, a = (.flags,[]) ∧ ∃ r' ∈ rs ++ [r], r'.flag = some .flags := by
    intro e u hu a ha
    obtain ⟨he,r',hr',hf⟩ := h e u hu a ha
    exact ⟨he,r',by simp [hr'],hf⟩
  rw [readRecord, iterate_record hc.strbuff] at hr
  rcases outcome_cases hr with ⟨_,p,w,hp,_,rfl⟩ | ⟨hf,p,j,_,rfl⟩ | ⟨_,w,_,rfl⟩ | ⟨_,rfl⟩
  · obtain ⟨pf,hpf⟩ := (hc.pf p hp).2
    intro e u hu
    rw [fileAt_afterFd hpf] at hu
    split_ifs at hu
    · cases ho : fileAt st.procMap e with
      | none =>
        rw [ho, Option.getD_none, Option.some.injEq] at hu
        simp [← hu]
      | some v =>
        rw [ho, Option.getD_some] at hu
        exact hold e u (ho.trans hu)
    · exact hold e u hu
  · intro e u hu
    rw [fileAt_afterFlags] at hu
    split_ifs at hu
    · obtain ⟨v,hv,rfl⟩ := Option.map_eq_some_iff.mp hu
      intro a ha
      simp only [UnlinkedFile.addAttribute, List.mem_append, List.mem_singleton] at ha
      rcases ha with ha | rfl
      · exact hold e v hv a ha
      · exact ⟨rfl,r,by simp,hf⟩
    · exact hold e u hu
  · intro e u hu
    rw [fileAt_afterPid] at hu
    exact hold e u hu
  · exact hold

theorem run_flagsEmpty {rs : List Record} (h : run (readRecord T) (init T ∅) rs = .ok st) :
    st.FlagsEmpty rs := by
  refine (run_history (I := fun pre st => st.Consistent ∧ st.FlagsEmpty pre) ?_
    ⟨init_consistent T,?_⟩ h).2
  · rintro pre r s t ⟨hc,hf⟩ hr
    exact ⟨iterate_consistent hc hr,readRecord_flagsEmpty hc hf hr⟩
  · intro e u hu
    simp [init, fileAt] at hu

end LsofLoop

/-- The `File Flags` a file ends with are those its file set gives. -/
def FileSet.FlagsIn (m : ProcMap) (s : FileSet) (e : ℤ × ℤ) : Prop :=
  ∃ u, fileAt m e = some u ∧
    u.attributes.filter (·.1 = .flags) = (s.flags.map fun v => (CphfId.flags,v.text)).toList

/-- Every file object has the flags of the file set it was made for. -/
def FlagsReach (T : UInt64) (sets : List ProcSet) : Prop :=
  ∃ m, bufferedRead T ∅ (stream sets) = .ok m ∧
    (sets.flatMap ProcSet.files).Forall₂ (FileSet.FlagsIn m) (entriesGiven T (stream sets))

lemma mem_setRecords_flags {sets : List ProcSet} {r : Record} (hr : r ∈ setRecords sets)
    (hf : r.flag = some .flags) : ∃ s ∈ sets, ∃ f ∈ s.files, f.flags ≠ none := by
  obtain ⟨s,hs,hr⟩ := List.mem_flatMap.mp hr
  rcases List.mem_cons.mp hr with rfl | hr
  · cases hf
  · obtain ⟨f,hfm,hr⟩ := List.mem_flatMap.mp hr
    rcases List.mem_cons.mp hr with rfl | hr
    · cases hf
    · refine ⟨s,hs,f,hfm,fun hn => ?_⟩
      simp [hn] at hr

/-- Flags reach the file they belong to exactly when there are none in the stream. -/
theorem flagsReach_iff (T : UInt64) (sets : List ProcSet) :
    FlagsReach T sets ↔ ∀ s ∈ sets, ∀ f ∈ s.files, f.flags = none := by
  obtain ⟨st,hst,hrun,hc,hl⟩ := bufferedReadState_stream T sets
  have hread : bufferedRead T ∅ (stream sets) = .ok st.procMap := by rw [bufferedRead, hst]; rfl
  have hempty := LsofLoop.run_flagsEmpty hrun
  constructor
  · rintro ⟨m,hm,hall⟩ s hs f hf
    cases hread.symm.trans hm
    have hmem : f ∈ sets.flatMap ProcSet.files := List.mem_flatMap.mpr ⟨s,hs,hf⟩
    obtain ⟨i,hi,rfl⟩ := List.getElem_of_mem hmem
    obtain ⟨u,hu,hfl⟩ := (List.forall₂_iff_get.mp hall).2 i hi (by rw [← hall.length_eq]; exact hi)
    cases hv : ((sets.flatMap ProcSet.files)[i]).flags with
    | none => rfl
    | some v =>
      have ha : (CphfId.flags,v.text) ∈ u.attributes := by
        have hin : (CphfId.flags,v.text) ∈ u.attributes.filter (·.1 = .flags) := by
          rw [hfl]
          simp [hv]
        exact (List.mem_filter.mp hin).1
      have hnil := (Prod.mk.inj (hempty _ u hu _ ha).1).2
      exact absurd hnil v.isWord.1
  · intro hnone
    refine ⟨st.procMap,hread,List.forall₂_iff_zip.mpr ⟨(entriesGiven_length T sets).symm,?_⟩⟩
    intro f e hfe
    obtain ⟨hf,he⟩ := List.of_mem_zip hfe
    obtain ⟨s,hs,hf⟩ := List.mem_flatMap.mp hf
    rw [entriesGiven_stream, ← ledger_sets_files, ← hl.files] at he
    obtain ⟨u,hu⟩ := Option.isSome_iff_exists.mp he
    refine ⟨u,hu,?_⟩
    rw [hnone s hs f hf, Option.map_none, Option.toList_none, List.filter_eq_nil_iff]
    intro a ha
    obtain ⟨_,r,hr,hrf⟩ := hempty e u hu a ha
    obtain ⟨s',hs',f',hf',hn⟩ := mem_setRecords_flags hr hrf
    exact absurd (hnone s' hs' f' hf') hn

/-- Descriptor `3` of process `1` with the flags `R` ends with empty ones. -/
theorem not_flagsReach_of_flags :
    ¬ FlagsReach 1025 [⟨⟨"1".toList,by decide,by decide⟩,
      [⟨⟨"3".toList,by decide,by decide⟩,some ⟨"R".toList,by decide,by decide⟩⟩]⟩] := by
  rintro ⟨m,hm,hall⟩
  have he : (fun m => (fileAt m (1,3)).map UnlinkedFile.attributes) <$>
      bufferedRead 1025 ∅ "p1\nf3\nGR\n".toList = .ok (some [(.flags,[])]) := by decide +kernel
  have hg : entriesGiven 1025 "p1\nf3\nGR\n".toList = [(1,3)] := by decide +kernel
  obtain ⟨u,hu,hfl⟩ := (List.forall₂_cons.mp (hg ▸ hall)).1
  have hs : _ = Except.ok ((fileAt m (1,3)).map UnlinkedFile.attributes) :=
    congrArg (Functor.map fun m => (fileAt m (1,3)).map UnlinkedFile.attributes) hm
  have ha := Except.ok.inj (he.symm.trans hs)
  rw [hu, Option.map_some, Option.some.injEq] at ha
  rw [← ha] at hfl
  exact absurd hfl (by decide)

end Cphf
