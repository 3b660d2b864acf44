import Cphf.Lsof.Steps

/-! What holds of every attribute a store keeps: the updates of a store preserve it, and
`bufferedRead` does whenever it holds of the two attributes that reader adds. -/
namespace Cphf
open CLib

section
variable (P : CphfAttribute → Prop)

/-- All attributes of a process and of its files satisfy a condition. -/
structure ProcFile.AllStored (p : ProcFile) : Prop where
  own : ∀ a ∈ p.attributes, P a
  files : ∀ j u, p.ulFiles.find? j = some u → ∀ a ∈ u.attributes, P a

/-- All attributes of a store satisfy a condition. -/
def AllStored (m : ProcMap) : Prop := ∀ k p, m.find? k = some p → p.AllStored P

theorem allStored_empty : AllStored P ∅ := fun _ _ h => by cases h

end

section
variable {P Q : CphfAttribute → Prop} {m : ProcMap} {p : ProcFile} {u : UnlinkedFile}

theorem AllStored.imp (h : AllStored P m) (hPQ : ∀ a, P a → Q a) : AllStored Q m :=
  fun k p hp => ⟨fun a ha => hPQ a ((h k p hp).own a ha),
    fun j u hu a ha => hPQ a ((h k p hp).files j u hu a ha)⟩

theorem ProcFile.new_allStored : ProcFile.new.AllStored P :=
  ⟨by simp [new],fun _ _ h => by cases h⟩

theorem ProcFile.AllStored.addAttributes (h : p.AllStored P) {l : List CphfAttribute}
    (hl : ∀ a ∈ l, P a) : (p.addAttributes l).AllStored P := by
  refine ⟨fun a ha => ?_,by simpa using h.files⟩
  rw [ProcFile.addAttributes_attributes] at ha
  rcases mem_arranged.mp ha with ha | ha
  · exact h.own a ha
  · exact hl a ha

theorem UnlinkedFile.addAttributes_all (h : ∀ a ∈ u.attributes, P a) {l : List CphfAttribute}
    (hl : ∀ a ∈ l, P a) : ∀ a ∈ (u.addAttributes l).attributes, P a := by
  intro a ha
  rw [UnlinkedFile.addAttributes_attributes] at ha
  rcases mem_arranged.mp ha with ha | ha
  · exact h a ha
  · exact hl a ha

theorem ProcFile.AllStored.addFile (h : p.AllStored P) (fd T pid fid : UInt64) :
    (p.addFile fd (UnlinkedFile.new T pid fid)).AllStored P := by
  refine ⟨h.own,fun j u hu => ?_⟩
  simp only [ProcFile.addFile, OMap.find?_insertNew] at hu
  split_ifs at hu with hj
  · cases hold : p.ulFiles.find? (fileKey fd) with
    | some v =>
      rw [hold, Option.getD_some, Option.some.injEq] at hu
      exact hu ▸ h.files _ v hold
    | none =>
      rw [hold, Option.getD_none, Option.some.injEq] at hu
      simp [← hu]
  · exact h.files j u hu

/-- An update of one process that preserves the condition preserves it in the store. -/
theorem AllStored.modify (h : AllStored P m) {k : ℤ} {f : ProcFile → ProcFile}
    (hf : ∀ p, p.AllStored P → (f p).AllStored P) : AllStored P (m.modify k f) := by
  intro j q hq
  rw [OMap.find?_modify] at hq
  split_ifs at hq
  · obtain ⟨p,hp,rfl⟩ := Option.map_eq_some_iff.mp hq
    exact hf p (h k p hp)
  · exact h j q hq

theorem AllStored.insertNew (h : AllStored P m) (k : ℤ) :
    AllStored P (m.insertNew k ProcFile.new) := by
  intro j q hq
  rw [OMap.find?_insertNew] at hq
  split_ifs at hq
  · cases hold : m.find? k with
    | some p =>
      rw [hold, Option.getD_some, Option.some.injEq] at hq
      exact hq ▸ h k p hold
    | none =>
      rw [hold, Option.getD_none, Option.some.injEq] at hq
      exact hq ▸ ProcFile.new_allStored
  · exact h j q hq

/-- The attributes printed of a queue all come from the store. -/
theorem AllStored.flattenMap (h : AllStored P m) {procs files : Bool} {f : CphfFile}
    (hf : f ∈ flattenMap m procs files) :
    (∃ p, f = .proc p ∧ ∀ a ∈ p.attributes, P a) ∨
      ∃ u, f = .file u ∧ ∀ a ∈ u.attributes, P a := by
  obtain ⟨⟨k,p⟩,he,hf⟩ := List.mem_flatMap.mp hf
  have hp := h k p (OMap.mem_entries.mp he)
  rcases List.mem_append.mp hf with hf | hf
  · split at hf
    · exact .inl ⟨p,List.mem_singleton.mp hf,hp.own⟩
    · cases hf
  · split at hf
    · obtain ⟨⟨j,u⟩,hu,rfl⟩ := List.mem_map.mp hf
      exact .inr ⟨u,rfl,hp.files j u (OMap.mem_entries.mp hu)⟩
    · cases hf

end

/-- The loop has stored such attributes only, and its buffer holds no newline. -/
structure LsofLoop.AllStored (P : CphfAttribute → Prop) (st : LsofLoop) : Prop where
  strbuff : st.strbuff = []
  buffer : ∀ w, st.charbuff = some w → '\n' ∉ w
  store : Cphf.AllStored P st.procMap

/-- A value that was read is a word. -/
theorem token_word {fin : Text} {t : Token} (h : t ∈ tokens fin) {w : Text} (hw : t.value = some w) :
    '\n' ∉ w := by
  induction hn : fin.length using Nat.strong_induction_on generalizing fin with
  | _ n ih =>
    subst hn
    cases hnext : nextToken fin with
    | none =>
      rw [tokens_of_none hnext] at h
      cases h
    | some r =>
      obtain ⟨t',rest⟩ := r
      rw [tokens_of_some hnext] at h
      rcases List.mem_cons.mp h with rfl | h
      · cases fin with
        | nil => cases hnext
        | cons c s =>
          rw [nextToken_cons] at hnext
          split_ifs at hnext <;> cases hnext
          · cases hw
          · cases hw
            intro hm
            have := List.mem_takeWhile_imp hm
            simp [isspace] at this
      · exact ih _ (nextToken_length hnext) h rfl

section
variable {P : CphfAttribute → Prop} (hpid : ∀ w, '\n' ∉ w → P (.pid,c_str w)) (hflags : P (.flags,[]))
include hpid hflags

theorem LsofLoop.iterate_allStored {T : UInt64} {st st' : LsofLoop} {t : Token}
    (h : st.AllStored P) (ht : ∀ w, t.value = some w → '\n' ∉ w)
    (hr : st.iterate T t = .ok st') : st'.AllStored P := by
  have hbuffer : ∀ w, st.effective t = some w → '\n' ∉ w := by
    intro w hw
    unfold effective at hw
    cases hv : t.value with
    | none =>
      rw [hv, Option.none_or] at hw
      exact h.buffer w hw
    | some v =>
      rw [hv, Option.some_or] at hw
      cases hw
      exact ht _ hv
  rcases outcome_cases (outcome_of_iterate h.strbuff hr) with
    ⟨_,p,w,_,hw,rfl⟩ | ⟨_,p,j,_,rfl⟩ | ⟨_,w,hw,rfl⟩ | ⟨_,rfl⟩
  · refine ⟨rfl,fun v hv => ?_,h.store.modify fun q hq => hq.addFile _ _ _ _⟩
    cases hv
    exact hbuffer _ hw
  · refine ⟨rfl,hbuffer,h.store.modify fun q hq => ⟨hq.own,fun i u hu => ?_⟩⟩
    rw [OMap.find?_modify] at hu
    split_ifs at hu
    · obtain ⟨v,hv,rfl⟩ := Option.map_eq_some_iff.mp hu
      exact v.addAttributes_all (l := [(.flags,[])]) (hq.files _ v hv) (by simpa using hflags)
    · exact hq.files i u hu
  · refine ⟨rfl,fun v hv => ?_,(h.store.insertNew _).modify fun q hq =>
      hq.addAttributes (l := [(.pid,c_str w)]) (by simpa using hpid w (hbuffer w hw))⟩
    cases hv
    exact hbuffer _ hw
  · exact ⟨rfl,hbuffer,h.store⟩

theorem bufferedRead_allStored {T : UInt64} {procMap m : ProcMap} {fin : Text}
    (hm : AllStored P procMap) (h : bufferedRead T procMap fin = .ok m) : AllStored P m := by
  obtain ⟨st,hst,rfl⟩ := map_eq_ok.mp h
  rw [bufferedReadState_eq_run] at hst
  have hinit : (LsofLoop.init T procMap).AllStored P := ⟨rfl,fun w hw => (by cases hw),hm⟩
  exact (run_invariant_mem (fun s t ht s' hs => LsofLoop.iterate_allStored hpid hflags hs
    fun _ => token_word ht) hinit hst).store

/-- `LSOFReader` adds the number of a process, on one line, and empty flags. -/
theorem getFilesInfo_allStored {T : UInt64} {answer : LsofAnswer} {procMap m : ProcMap} {out : Text}
    (hm : AllStored P procMap) (h : getFilesInfo T answer procMap = .ok (out,m)) :
    AllStored P m := by
  cases answer with
  | noPipe =>
    cases h
    exact hm
  | noFork =>
    cases h
    exact hm
  | output bytes =>
    obtain ⟨m',hm',he⟩ := map_eq_ok.mp h
    cases he
    exact bufferedRead_allStored hpid hflags hm hm'

end

end Cphf
