import Cphf.CLib.Growth
import Cphf.Lsof.Steps
import Cphf.Independence

/-! Nothing is ever taken away. Whatever readers run, in whatever order and from whatever store,
processes and files stay where they are with the attributes they have, labels stay, and what was
printed stays printed. -/
namespace Cphf
open CLib

/-- A file keeps its path and its numbers, and its attributes in their order. -/
structure UnlinkedFile.Grows (u v : UnlinkedFile) : Prop where
  path : v.path = u.path
  fid : v.fid = u.fid
  pid : v.pid = u.pid
  attributes : u.attributes.Sublist v.attributes

/-- A process keeps its attributes in their order, and its files. -/
structure ProcFile.Grows (p q : ProcFile) : Prop where
  attributes : p.attributes.Sublist q.attributes
  files : p.ulFiles.Grows UnlinkedFile.Grows q.ulFiles

namespace UnlinkedFile
variable {u v w : UnlinkedFile}

theorem Grows.refl (u : UnlinkedFile) : u.Grows u := ⟨rfl,rfl,rfl,.refl _⟩

theorem Grows.trans (h : u.Grows v) (h' : v.Grows w) : u.Grows w :=
  ⟨h'.path.trans h.path,h'.fid.trans h.fid,h'.pid.trans h.pid,h.attributes.trans h'.attributes⟩

theorem grows_addAttribute (u : UnlinkedFile) (i : CphfId) (v : Text) :
    u.Grows (u.addAttribute i v) := by
  cases i with
  | filename => exact ⟨rfl,rfl,rfl,List.sublist_cons_self _ _⟩
  | _ => exact ⟨rfl,rfl,rfl,List.sublist_append_left _ _⟩

theorem grows_addAttributes (u : UnlinkedFile) (l : List CphfAttribute) :
    u.Grows (u.addAttributes l) := by
  induction l generalizing u with
  | nil => exact .refl u
  | cons a l ih => exact (u.grows_addAttribute a.1 a.2).trans (ih _)

end UnlinkedFile

namespace ProcFile
variable {p q r : ProcFile}

theorem Grows.refl (p : ProcFile) : p.Grows p := ⟨.refl _,.refl .refl _⟩

theorem Grows.trans (h : p.Grows q) (h' : q.Grows r) : p.Grows r :=
  ⟨h.attributes.trans h'.attributes,h.files.trans (fun _ _ _ => .trans) h'.files⟩

theorem grows_addAttribute (p : ProcFile) (i : CphfId) (v : Text) :
    p.Grows (p.addAttribute i v) := by
  refine ⟨?_,by rw [addAttribute_ulFiles]; exact .refl .refl _⟩
  cases i with
  | cmd => exact List.sublist_cons_self _ _
  | _ => exact List.sublist_append_left _ _

theorem grows_addAttributes (p : ProcFile) (l : List CphfAttribute) : p.Grows (p.addAttributes l) := by
  induction l generalizing p with
  | nil => exact .refl p
  | cons a l ih => exact (p.grows_addAttribute a.1 a.2).trans (ih _)

theorem grows_addFile (p : ProcFile) (fd : UInt64) (u : UnlinkedFile) : p.Grows (p.addFile fd u) :=
  ⟨.refl _,OMap.grows_insertNew .refl p.ulFiles (fileKey fd) u⟩

theorem grows_modifyFile (p : ProcFile) (j : ℤ) {f : UnlinkedFile → UnlinkedFile}
    (hf : ∀ u : UnlinkedFile, u.Grows (f u)) : p.Grows { p with ulFiles := p.ulFiles.modify j f } :=
  ⟨.refl _,OMap.grows_modify .refl p.ulFiles j fun u _ => hf u⟩

end ProcFile

/-- A store keeps its processes. -/
def ProcMap.Grows (m m' : ProcMap) : Prop := OMap.Grows ProcFile.Grows m m'

namespace ProcMap
variable {m m' m'' : ProcMap}

theorem Grows.refl (m : ProcMap) : m.Grows m := OMap.Grows.refl .refl m

theorem Grows.trans (h : m.Grows m') (h' : m'.Grows m'') : m.Grows m'' :=
  OMap.Grows.trans (fun _ _ _ => .trans) h h'

end ProcMap

/-- Each iteration of `bufferedRead` grows the store. -/
theorem LsofLoop.iterate_grows {T : UInt64} {st st' : LsofLoop} {t : Token}
    (hs : st.strbuff = []) (h : st.iterate T t = .ok st') :
    st.procMap.Grows st'.procMap ∧ st'.strbuff = [] := by
  rcases outcome_cases (outcome_of_iterate hs h) with
    ⟨_,p,w,_,_,rfl⟩ | ⟨_,p,j,_,rfl⟩ | ⟨_,w,_,rfl⟩ | ⟨_,rfl⟩
  · exact ⟨OMap.grows_modify .refl _ _ fun q _ => q.grows_addFile _ _,rfl⟩
  · refine ⟨OMap.grows_modify .refl _ _ fun q _ => ?_,rfl⟩
    exact q.grows_modifyFile j fun u => u.grows_addAttribute _ _
  · have hins : st.procMap.Grows (st.procMap.insertNew (atoi (c_str w)) ProcFile.new) :=
      OMap.grows_insertNew .refl _ _ _
    exact ⟨hins.trans (OMap.grows_modify .refl _ _ fun q _ => q.grows_addAttribute _ _),rfl⟩
  · exact ⟨.refl _,rfl⟩

theorem LsofLoop.run_grows {T : UInt64} {st st' : LsofLoop} {ts : List Token}
    (hs : st.strbuff = []) (h : run (iterate T) st ts = .ok st') :
    st.procMap.Grows st'.procMap := by
  apply (run_invariant (I := fun s : LsofLoop => st.procMap.Grows s.procMap ∧ s.strbuff = [])
    (fun s t s' hI hr => ?_) ⟨.refl _,hs⟩ h).1
  obtain ⟨hg,hs'⟩ := iterate_grows hI.2 hr
  exact ⟨hI.1.trans hg,hs'⟩

theorem getFilesInfo_grows {T : UInt64} {answer : LsofAnswer} {m m' : ProcMap} {out : Text}
    (h : getFilesInfo T answer m = .ok (out,m')) : m.Grows m' := by
  cases answer with
  | noPipe | noFork =>
    cases h
    exact .refl _
  | output bytes =>
    obtain ⟨m₁,hm,he⟩ := map_eq_ok.mp h
    cases he
    obtain ⟨st,hst,rfl⟩ := map_eq_ok.mp hm
    rw [bufferedReadState_eq_run] at hst
    have hs : (LsofLoop.init T m).strbuff = [] := rfl
    exact LsofLoop.run_grows hs hst

section
variable {sys : System} {options : Text} {m m' : ProcMap}

theorem ProcReader.do_read_grows {fresh : ProcInfo} {out : Text}
    (h : do_read sys fresh options m = .ok (out,m')) : m.Grows m' := by
  intro k p hp
  obtain ⟨q,hq,st,st',hv⟩ := do_read_process h hp
  refine ⟨q,hq,?_⟩
  rcases visit_eq_ok hv with ⟨_,rfl⟩ | ⟨info,funcs,_,_,rfl⟩
  · exact .refl q
  · exact p.grows_addAttributes _

theorem readFileStatAttributes_grows {T : UInt64} {fid pid : UInt32} {u u' : UnlinkedFile}
    (h : readFileStatAttributes sys T options fid pid u = .ok u') : u.Grows u' := by
  unfold readFileStatAttributes at h
  dsimp only at h
  cases hs : sys.stat (formPath T pid fid.toUInt64) with
  | none =>
    rw [hs] at h
    cases h
    exact .refl u
  | some stat =>
    rw [hs] at h
    obtain ⟨funcs,_,he⟩ := bind_eq_ok.mp h
    cases he
    exact u.grows_addAttributes _

theorem FileStatReader.do_read_grows {T : UInt64} (h : do_read sys T options m = .ok m') :
    m.Grows m' := by
  intro k p hp
  obtain ⟨files,hq,hfiles⟩ := do_read_process h hp
  refine ⟨_,hq,.refl _,fun j u hu => ?_⟩
  obtain ⟨u',hu',hr⟩ := hfiles j u hu
  exact ⟨u',hu',readFileStatAttributes_grows hr⟩

end

theorem createAttribMap_grows (ids : List CphfId) (attributeFlags : AttributeFlags) :
    attributeFlags.Grows (· = ·) (createAttribMap ids attributeFlags) := by
  induction ids generalizing attributeFlags with
  | nil => exact .refl (fun _ => rfl) _
  | cons i ids ih =>
    exact (OMap.grows_insertNew (fun _ => rfl) _ i _).trans (fun _ _ _ => Eq.trans) (ih _)

/-- What was printed, the labels and the store are all kept. -/
structure Built.Grows (b b' : Built) : Prop where
  printed : b.printed <+: b'.printed
  labels : b.attributeFlags.Grows (· = ·) b'.attributeFlags
  store : b.procMap.Grows b'.procMap

namespace Built
variable {b b' b'' : Built}

theorem Grows.refl (b : Built) : b.Grows b := ⟨List.prefix_rfl,.refl (fun _ => rfl) _,.refl _⟩

theorem Grows.trans (h : b.Grows b') (h' : b'.Grows b'') : b.Grows b'' :=
  ⟨h.printed.trans h'.printed,h.labels.trans (fun _ _ _ => Eq.trans) h'.labels,
    h.store.trans h'.store⟩

theorem dig_grows {env : Surroundings} {ddig : DataDigger} (h : b.dig env ddig = .ok b') :
    b.Grows b' := by
  obtain ⟨reader,options⟩ := ddig
  cases reader with
  | lsof =>
    obtain ⟨r,hr,he⟩ := bind_eq_ok.mp h
    cases he
    exact ⟨List.prefix_append _ _,createAttribMap_grows _ _,getFilesInfo_grows hr⟩
  | proc =>
    obtain ⟨r,hr,he⟩ := bind_eq_ok.mp h
    cases he
    exact ⟨List.prefix_append _ _,createAttribMap_grows _ _,ProcReader.do_read_grows hr⟩
  | filestat =>
    obtain ⟨m,hm,he⟩ := bind_eq_ok.mp h
    cases he
    exact ⟨List.prefix_rfl,createAttribMap_grows _ _,FileStatReader.do_read_grows hm⟩

end Built

/-- No list of readers takes anything away from what was there before it. -/
theorem run_dig_grows (env : Surroundings) (diggers : List DataDigger) {b b' : Built}
    (h : run (Built.dig env) b diggers = .ok b') : b.Grows b' :=
  run_related (R := Built.Grows) .refl (fun _ _ _ => .trans) (fun _ _ _ _ => Built.dig_grows) h

/-- Readers that add to a store with one file, `lsof` last. -/
theorem run_dig_grows_one : ∃ b, run (Built.dig oneRecord) ⟨[],∅,oneFile⟩
    [(.filestat,"n".toList),(.proc,"c".toList),(.lsof,"pfg".toList)] = .ok b ∧
      Built.Grows ⟨[],∅,oneFile⟩ b := by
  have hrun : (fun b : Built => b.procMap.entries.length) <$> run (Built.dig oneRecord)
      ⟨[],∅,oneFile⟩ [(.filestat,"n".toList),(.proc,"c".toList),(.lsof,"pfg".toList)] = .ok 1 := by
    decide +kernel
  obtain ⟨b,hb,_⟩ := map_eq_ok.mp hrun
  exact ⟨b,hb,run_dig_grows oneRecord _ hb⟩

end Cphf
