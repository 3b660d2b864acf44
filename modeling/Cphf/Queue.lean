import Cphf.Growth
import Cphf.EndToEnd

/-! Who stands where in the queue. Whatever readers have run, in whatever order and however often,
the queue tells the processes in the order of their numbers, and after each process the files
that carry its number, in the order of theirs. -/
namespace Cphf
open CLib

/-- A number that is an `int`. -/
def IsInt (k : ℤ) : Prop := -2^31 ≤ k ∧ k < 2^31

theorem fileKey_isInt (n : UInt64) : IsInt (fileKey n) := asInt_range _

/-- A process stands under its number, which is an `int` as those of its files are. -/
structure ProcFile.Filed (k : ℤ) (p : ProcFile) : Prop where
  atKey : p.AtKey k
  key : IsInt k
  files : p.ulFiles.Each fun j _ => IsInt j

/-- Every process of the store does. -/
def ProcMap.Filed (m : ProcMap) : Prop := OMap.Each ProcFile.Filed m

section
variable {m m' : ProcMap}

/-- `bufferedRead` keeps its pointers and the store in order. -/
structure LsofLoop.Filed (st : LsofLoop) : Prop where
  consistent : st.Consistent
  store : ProcMap.Filed st.procMap

theorem LsofLoop.init_filed (T : UInt64) (h : m.Filed) : (init T m).Filed :=
  ⟨⟨rfl,fun k p hp => (h k p hp).atKey,fun _ h => (by cases h),fun _ _ h => (by cases h)⟩,h⟩

theorem LsofLoop.iterate_filed {T : UInt64} {st st' : LsofLoop} {t : Token} (h : st.Filed)
    (hr : st.iterate T t = .ok st') : st'.Filed := by
  have hc := iterate_consistent h.consistent hr
  refine ⟨hc,fun k p hp => ?_⟩
  have hatKey := hc.procs k p hp
  suffices hint : OMap.Each (fun k (p : ProcFile) => IsInt k ∧ p.ulFiles.Each fun j _ => IsInt j)
      st'.procMap from
    ⟨hatKey,(hint k p hp).1,(hint k p hp).2⟩
  have hold : OMap.Each (fun k (p : ProcFile) => IsInt k ∧ p.ulFiles.Each fun j _ => IsInt j)
      st.procMap := fun k p hp => ⟨(h.store k p hp).key,(h.store k p hp).files⟩
  rcases outcome_cases (outcome_of_iterate h.consistent.strbuff hr) with
    ⟨_,p,w,_,_,rfl⟩ | ⟨_,p,j,_,rfl⟩ | ⟨_,w,_,rfl⟩ | ⟨_,rfl⟩
  · exact hold.modify fun q hq => ⟨hq.1,hq.2.insertNew fun _ => fileKey_isInt _⟩
  · exact hold.modify fun q hq => ⟨hq.1,hq.2.modify fun _ hj => hj⟩
  · apply OMap.Each.modify (hold.insertNew fun _ => ⟨atoi_range _,OMap.each_empty⟩)
    intro q hq
    rwa [ProcFile.addAttribute_ulFiles]
  · exact hold

theorem getFilesInfo_filed {T : UInt64} {answer : LsofAnswer} {out : Text} (h : m.Filed)
    (hr : getFilesInfo T answer m = .ok (out,m')) : m'.Filed := by
  cases answer with
  | noPipe | noFork =>
    cases hr
    exact h
  | output bytes =>
    obtain ⟨m₁,hm,he⟩ := map_eq_ok.mp hr
    cases he
    obtain ⟨st,hst,rfl⟩ := map_eq_ok.mp hm
    rw [bufferedReadState_eq_run] at hst
    exact (run_invariant (fun _ _ _ => LsofLoop.iterate_filed) (LsofLoop.init_filed T h) hst).store

theorem ProcReader.do_read_filed {sys : System} {fresh : ProcInfo} {options out : Text}
    (h : m.Filed) (hr : do_read sys fresh options m = .ok (out,m')) : m'.Filed := by
  obtain ⟨⟨st,m₁⟩,ht,he⟩ := bind_eq_ok.mp hr
  cases he
  apply OMap.Each.traverse h (fun s t k p q hp hv => ?_) ht
  rcases visit_eq_ok hv with ⟨_,rfl⟩ | ⟨info,funcs,_,hg,rfl⟩
  · exact hp
  · have hid := gathered_ne_pid hg
    refine ⟨⟨?_,fun v hv => ?_,?_⟩,hp.key,?_⟩
    · rw [ProcFile.addAttributes_pid hid]
      exact hp.atKey.pid
    · rw [ProcFile.addAttributes_attributes] at hv
      rcases mem_arranged.mp hv with hv | hv
      · exact hp.atKey.text v hv
      · exact absurd rfl (hid _ hv)
    · rw [ProcFile.addAttributes_ulFiles]
      exact hp.atKey.files
    · rw [ProcFile.addAttributes_ulFiles]
      exact hp.files

theorem FileStatReader.do_read_filed {sys : System} {T : UInt64} {options : Text}
    (h : m.Filed) (hr : do_read sys T options m = .ok m') : m'.Filed := by
  obtain ⟨⟨_,m₁⟩,ht,he⟩ := bind_eq_ok.mp hr
  cases he
  apply OMap.Each.traverse h (fun _ _ k p q hp hv => ?_) ht
  obtain ⟨q',hadd,he⟩ := map_eq_ok.mp hv
  cases he
  obtain ⟨files,hf,rfl⟩ := ProcFile.addFileAttributes_ok.mp hadd
  have hfiles : files.Each fun j u => u.AtKey k j ∧ IsInt j := by
    have hold : p.ulFiles.Each fun j u => u.AtKey k j ∧ IsInt j :=
      fun j u hu => ⟨hp.atKey.files j u hu,hp.files j u hu⟩
    apply hold.traverse (fun _ _ j u v hu hv => ?_) hf
    obtain ⟨v',hr,he⟩ := map_eq_ok.mp hv
    cases he
    have hg := readFileStatAttributes_grows hr
    exact ⟨⟨hg.pid.trans hu.1.1,hg.fid.trans hu.1.2⟩,hu.2⟩
  exact ⟨⟨hp.atKey.pid,hp.atKey.text,fun j u hu => (hfiles j u hu).1⟩,hp.key,
    fun j u hu => (hfiles j u hu).2⟩

end

theorem Built.dig_filed {env : Surroundings} {ddig : DataDigger} {b b' : Built}
    (hb : b.procMap.Filed) (h : b.dig env ddig = .ok b') : b'.procMap.Filed := by
  obtain ⟨reader,options⟩ := ddig
  cases reader with
  | lsof =>
    obtain ⟨r,hr,he⟩ := bind_eq_ok.mp h
    cases he
    exact getFilesInfo_filed hb hr
  | proc =>
    obtain ⟨r,hr,he⟩ := bind_eq_ok.mp h
    cases he
    exact ProcReader.do_read_filed hb hr
  | filestat =>
    obtain ⟨m,hm,he⟩ := bind_eq_ok.mp h
    cases he
    exact FileStatReader.do_read_filed hb hm

/-- A process and its files as they stand in the queue: they are those the process has, all carry
the number it is announced under, and they ascend. -/
structure ProcGroup (p : ProcFile) (files : List UnlinkedFile) : Prop where
  listed : files = p.ulFiles.entries.map Prod.snd
  announced : ∀ v, (CphfId.pid,v) ∈ p.attributes → atoi (c_str v) = asInt p.pid.toNat
  owned : ∀ u ∈ files, u.pid = p.pid
  ascending : (files.map fun u => asInt u.fid.toNat).Pairwise (· < ·)

theorem ProcFile.Filed.group {k : ℤ} {p : ProcFile} (h : p.Filed k) :
    ProcGroup p (p.ulFiles.entries.map Prod.snd) := by
  refine ⟨rfl,fun v hv => ?_,fun u hu => ?_,?_⟩
  · rw [h.atKey.text v hv, h.atKey.pid, asInt_asUInt32 h.key.1 h.key.2]
  · obtain ⟨⟨j,u⟩,he,rfl⟩ := List.mem_map.mp hu
    rw [(h.atKey.files j u (OMap.mem_entries.mp he)).1, h.atKey.pid]
  · have hkeys : p.ulFiles.entries.map (fun e => asInt e.2.fid.toNat) =
        p.ulFiles.entries.map Prod.fst := by
      apply List.map_congr_left
      rintro ⟨j,u⟩ he
      have hj := h.files j u (OMap.mem_entries.mp he)
      rw [(h.atKey.files j u (OMap.mem_entries.mp he)).2, asInt_asUInt32 hj.1 hj.2]
    rw [List.map_map, Function.comp_def, hkeys]
    exact p.ulFiles.sorted

/-- After any sequence of readers the queue is made of such groups, one for each process of the
store, the processes ascending. -/
theorem build_groups {env : Surroundings} {diggers : List DataDigger} {b : Built}
    (h : build env diggers = .ok b) : ∃ groups : List (ProcFile × List UnlinkedFile),
      flattenMap b.procMap true true = groups.flatMap (fun g => .proc g.1 :: g.2.map .file) ∧
      groups.map Prod.fst = b.procMap.entries.map Prod.snd ∧
      (groups.map fun g => asInt g.1.pid.toNat).Pairwise (· < ·) ∧
      ∀ g ∈ groups, ProcGroup g.1 g.2 := by
  have hfiled : b.procMap.Filed :=
    run_invariant (I := fun b : Built => b.procMap.Filed) (fun _ _ _ => Built.dig_filed)
      (s := Built.init) OMap.each_empty h
  refine ⟨b.procMap.entries.map fun e => (e.2,e.2.ulFiles.entries.map Prod.snd),?_,?_,?_,?_⟩
  · rw [List.flatMap_map, flattenMap]
    congr 1
    funext e
    simp [ProcFile.flatten, Function.comp_def]
  · rw [List.map_map]
    rfl
  · have hkeys : b.procMap.entries.map (fun e => asInt e.2.pid.toNat) =
        b.procMap.entries.map Prod.fst := by
      apply List.map_congr_left
      rintro ⟨k,p⟩ he
      have hp := hfiled k p (OMap.mem_entries.mp he)
      rw [hp.atKey.pid, asInt_asUInt32 hp.key.1 hp.key.2]
    rw [List.map_map, Function.comp_def, hkeys]
    exact b.procMap.sorted
  · intro g hg
    obtain ⟨⟨k,p⟩,he,rfl⟩ := List.mem_map.mp hg
    exact (hfiled k p (OMap.mem_entries.mp he)).group

/-- `lsof` read twice, with the files read in between. -/
theorem build_groups_twice : ∃ (b : Built) (groups : List (ProcFile × List UnlinkedFile)),
    build twoProcsFound [(.lsof,[]),(.filestat,"n".toList),(.lsof,[])] = .ok b ∧
      flattenMap b.procMap true true = groups.flatMap (fun g => .proc g.1 :: g.2.map .file) ∧
      groups.map Prod.fst = b.procMap.entries.map Prod.snd ∧
      (groups.map fun g => asInt g.1.pid.toNat).Pairwise (· < ·) ∧
      ∀ g ∈ groups, ProcGroup g.1 g.2 := by
  have hrun : (fun b : Built => b.procMap.entries.length) <$>
      build twoProcsFound [(.lsof,[]),(.filestat,"n".toList),(.lsof,[])] = .ok 2 := by
    decide +kernel
  obtain ⟨b,hb,_⟩ := map_eq_ok.mp hrun
  obtain ⟨groups,hall⟩ := build_groups hb
  exact ⟨b,groups,hb,hall⟩

end Cphf
