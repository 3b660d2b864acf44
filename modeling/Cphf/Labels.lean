import Cphf.Program
import Cphf.ReadBack
import Cphf.Readers.Stored

/-! Labels: each reader registers the identifiers of everything it stores, so the report never
comes to an attribute whose label is missing. -/
namespace Cphf
open CLib

theorem find?_createAttribMap {ids : List CphfId} {attribFlags : AttributeFlags} {i : CphfId} :
    ((createAttribMap ids attribFlags).find? i).isSome ↔ i ∈ ids ∨ (attribFlags.find? i).isSome := by
  induction ids generalizing attribFlags with
  | nil => simp [createAttribMap]
  | cons j ids ih =>
    apply ih.trans
    rw [OMap.find?_insertNew, List.mem_cons]
    split_ifs with h
    · simp [h]
    · simp [h]

/-- The identifiers a reader registers. -/
def ReaderId.ids : ReaderId → List CphfId
  | .lsof => LSOFReader.ids
  | .proc => ProcReader.ids
  | .filestat => FileStatReader.ids

theorem ProcOption.attribID_mem (o : ProcOption) : o.attribID ∈ ProcReader.ids := by
  cases o <;> decide

theorem FileOption.attribID_mem {o : FileOption} {i : CphfId} (h : o.attribID = some i) :
    i ∈ FileStatReader.ids := by
  cases o <;> cases h <;> decide

/-- The attribute has a label. -/
def HasLabel (attributeFlags : AttributeFlags) (a : CphfAttribute) : Prop :=
  (attributeFlags.find? a.1).isSome

/-- Every attribute in the store has a label. -/
def Built.Labelled (b : Built) : Prop := AllStored (HasLabel b.attributeFlags) b.procMap

theorem Built.init_labelled : init.Labelled := allStored_empty _

/-- A reader registers what it stores, and keeps what was registered before. -/
theorem Built.dig_labelled {env : Surroundings} {b b' : Built} {ddig : DataDigger}
    (h : b.Labelled) (hd : b.dig env ddig = .ok b') : b'.Labelled := by
  obtain ⟨reader,options⟩ := ddig
  have hnew : ∀ i ∈ reader.ids, ∀ v,
      HasLabel (createAttribMap reader.ids b.attributeFlags) (i,v) := fun i hi v =>
    find?_createAttribMap.mpr (.inl hi)
  have hold : AllStored (HasLabel (createAttribMap reader.ids b.attributeFlags)) b.procMap :=
    h.imp fun a ha => find?_createAttribMap.mpr (.inr ha)
  cases reader with
  | lsof =>
    obtain ⟨⟨out,m⟩,hr,he⟩ := bind_eq_ok.mp hd
    cases he
    exact getFilesInfo_allStored (fun _ _ => hnew .pid (by decide) _) (hnew .flags (by decide) _)
      hold hr
  | proc =>
    obtain ⟨⟨out,m⟩,hr,he⟩ := bind_eq_ok.mp hd
    cases he
    refine ProcReader.do_read_allStored (fun i _ c _ a ha => ?_) hold hr
    obtain ⟨o,_,ho,_⟩ := (ProcReader.entry_eq_ok env.sys i).mp ha
    exact hnew a.1 (ho ▸ o.attribID_mem) a.2
  | filestat =>
    obtain ⟨m,hr,he⟩ := bind_eq_ok.mp hd
    cases he
    refine FileStatReader.do_read_allStored (fun path stat c _ a ha => ?_) hold hr
    obtain ⟨o,_,ho,_⟩ := (FileStatReader.processOpiton_eq_ok env.sys path stat).mp ha
    exact hnew a.1 (FileOption.attribID_mem ho) a.2

/-- Whatever readers are run, in whatever order, everything stored has a label. -/
theorem build_labelled {env : Surroundings} {diggers : List DataDigger} {b : Built}
    (h : build env diggers = .ok b) : b.Labelled :=
  run_invariant (fun _ _ _ hs hd => Built.dig_labelled hs hd) Built.init_labelled h

theorem Built.dig_ownLabels {env : Surroundings} {b b' : Built} {ddig : DataDigger}
    (h : OwnLabels b.attributeFlags) (hd : b.dig env ddig = .ok b') :
    OwnLabels b'.attributeFlags := by
  obtain ⟨reader,options⟩ := ddig
  cases reader <;> obtain ⟨r,_,he⟩ := bind_eq_ok.mp hd <;> cases he <;>
    exact createAttribMap_ownLabels _ h

theorem build_ownLabels {env : Surroundings} {diggers : List DataDigger} {b : Built}
    (h : build env diggers = .ok b) : OwnLabels b.attributeFlags :=
  run_invariant (fun _ _ _ hs hd => Built.dig_ownLabels hs hd) ownLabels_empty h

section
variable {attributeFlags : AttributeFlags}

theorem printAttributes_completes_iff {prettyprinter : Text → Text → Text} {l : List CphfAttribute} :
    Completes (printAttributes attributeFlags prettyprinter l) ↔
      ∀ a ∈ l, HasLabel attributeFlags a := by
  induction l with
  | nil => simp [printAttributes]
  | cons a l ih =>
    rw [List.forall_mem_cons, ← ih, HasLabel, printAttributes]
    cases attributeFlags.find? a.1 with
    | none => simp
    | some label => simp

/-- A queue is printed exactly when all its attributes have labels. -/
theorem printFiles_completes_iff {queue : List CphfFile} :
    Completes (printFiles attributeFlags queue) ↔
      ∀ f ∈ queue, ∀ a ∈ f.entry.attributes, HasLabel attributeFlags a := by
  induction queue with
  | nil => simp [printFiles]
  | cons f queue ih =>
    have hf : Completes (printFile attributeFlags f) ↔
        ∀ a ∈ f.entry.attributes, HasLabel attributeFlags a := by
      cases f <;> exact completes_bind_ok.trans printAttributes_completes_iff
    rw [List.forall_mem_cons, ← ih, ← hf, printFiles, completes_bind]
    constructor
    · rintro ⟨t,ht,h⟩
      exact ⟨⟨t,ht⟩,completes_bind_ok.mp h⟩
    · rintro ⟨⟨t,ht⟩,h⟩
      exact ⟨t,ht,completes_bind_ok.mpr h⟩

end

/-- What the readers leave can be printed. -/
theorem runReaders_prints {env : Surroundings} {o : MainOptions} {r : Built × List CphfFile}
    (h : o.runReaders env = .ok r) : Completes (printFiles r.1.attributeFlags r.2) := by
  obtain ⟨b,hb,he⟩ := bind_eq_ok.mp h
  cases he
  apply printFiles_completes_iff.mpr
  intro f hf
  rcases (build_labelled hb).flattenMap hf with ⟨p,rfl,hp⟩ | ⟨u,rfl,hu⟩
  · exact hp
  · exact hu

/-- After the readers have run, every attribute stored has a label, and printing the queue does
not come to one without. -/
theorem runReaders_labelled {env : Surroundings} {o : MainOptions} {b : Built}
    {queue : List CphfFile} (h : o.runReaders env = .ok (b,queue)) :
    b.Labelled ∧ Completes (printFiles b.attributeFlags queue) := by
  obtain ⟨b',hb,he⟩ := bind_eq_ok.mp h
  cases he
  have hl := build_labelled hb
  refine ⟨hl,printFiles_completes_iff.mpr fun f hf => ?_⟩
  rcases hl.flattenMap hf with ⟨p,rfl,hp⟩ | ⟨u,rfl,hu⟩
  · exact hp
  · exact hu

/-- One process with one unlinked file, on a system that answers. -/
def oneRecord : Surroundings := ⟨some 1024,.output "p7\nf3\nGR\n".toList,answering,default⟩

theorem runReaders_labelled_one : ∃ b queue, MainOptions.init.runReaders oneRecord = .ok (b,queue) ∧
    b.Labelled ∧ Completes (printFiles b.attributeFlags queue) := by
  have hrun : (fun r => r.2.length) <$> MainOptions.init.runReaders oneRecord = .ok 2 := by
    decide +kernel
  obtain ⟨⟨b,queue⟩,h,_⟩ := map_eq_ok.mp hrun
  exact ⟨b,queue,h,runReaders_labelled h⟩

end Cphf
