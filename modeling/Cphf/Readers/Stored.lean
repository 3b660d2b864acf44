import Cphf.Stored
import Cphf.Readers.StatFile

/-! What holds of every attribute the readers of processes and of files add holds of all that a
store keeps. The record of `ProcReader` only ever holds lookups the system has answered, besides
those it began with. -/
namespace Cphf
open CLib

/-- The lookups in a record are answers of the system, or were there from the start. -/
structure ProcInfo.Known (sys : System) (i fresh : ProcInfo) : Prop where
  pw : ∀ pw, i.pw = some pw → fresh.pw = some pw ∨ ∃ uid, sys.getpwuid uid = some pw
  gr : ∀ gr, i.gr = some gr → fresh.gr = some gr ∨ ∃ gid, sys.getgrgid gid = some gr

namespace ProcInfo
variable {sys : System} {fresh i : ProcInfo}

theorem known_fresh (sys : System) (fresh : ProcInfo) : fresh.Known sys fresh :=
  ⟨fun _ h => .inl h,fun _ h => .inl h⟩

theorem Known.afterStatFile (h : i.Known sys fresh) (pid : UInt32) :
    (Cphf.afterStatFile sys pid i).Known sys fresh := by
  unfold Cphf.afterStatFile
  split
  · exact h
  · exact ⟨fun _ hpw => (by cases hpw),fun _ hgr => (by cases hgr)⟩

theorem Known.forProcess (h : i.Known sys fresh) (pid : UInt32) (info : Stat) :
    (i.forProcess sys pid info).Known sys fresh :=
  ⟨(h.afterStatFile pid).pw,(h.afterStatFile pid).gr⟩

theorem Known.resolved (h : i.Known sys fresh) : (i.resolved sys).Known sys fresh := by
  constructor
  · intro pw hpw
    rcases Option.or_eq_some_iff.mp hpw with hpw | ⟨_,hpw⟩
    · exact h.pw pw hpw
    · exact .inr ⟨_,hpw⟩
  · intro gr hgr
    rcases Option.or_eq_some_iff.mp hgr with hgr | ⟨_,hgr⟩
    · exact h.gr gr hgr
    · exact .inr ⟨_,hgr⟩

theorem Known.afterOptions (h : i.Known sys fresh) (options : Text) :
    (i.afterOptions sys options).Known sys fresh := by
  constructor
  · intro pw hpw
    unfold ProcInfo.afterOptions at hpw
    dsimp only at hpw
    split_ifs at hpw
    · exact h.resolved.pw pw hpw
    · exact h.pw pw hpw
  · intro gr hgr
    unfold ProcInfo.afterOptions at hgr
    dsimp only at hgr
    split_ifs at hgr
    · exact h.resolved.gr gr hgr
    · exact h.gr gr hgr

end ProcInfo

section
variable {P : CphfAttribute → Prop} {sys : System} {options : Text} {procMap m : ProcMap}

/-- What is gathered are entries. -/
theorem all_of_gather {α : Type} {entry : α → Except Fault CphfAttribute} (hf : Functional entry)
    {l : List α} (hentry : ∀ c ∈ l, ∀ a, entry c = .ok a → P a) {funcs : ReaderFuncs}
    (h : gather entry ∅ l = .ok funcs) : ∀ a ∈ funcs.entries, P a := by
  rintro ⟨k,v⟩ ha
  obtain ⟨c,hc,he⟩ := (find?_gather hf h k v).mp (OMap.mem_entries.mp ha)
  exact hentry c hc _ he

theorem ProcReader.visit_allStored {fresh : ProcInfo} {st st' : ProcLoop} {key : ℤ}
    {proc q : ProcFile}
    (hentry : ∀ i : ProcInfo, i.Known sys fresh → ∀ c ∈ options, ∀ a, entry sys i c = .ok a → P a)
    (hst : st.info.Known sys fresh) (hp : proc.AllStored P)
    (h : visit sys options st key proc = .ok (st',q)) :
    st'.info.Known sys fresh ∧ q.AllStored P := by
  rw [visit_eq] at h
  cases hs : sys.stat (exePath sys (asUInt32 key)) with
  | none =>
    rw [hs] at h
    cases h
    exact ⟨hst.afterStatFile _,hp⟩
  | some info =>
    rw [hs] at h
    obtain ⟨funcs,hg,he⟩ := bind_eq_ok.mp h
    cases he
    have hi := hst.forProcess (asUInt32 key) info
    exact ⟨hi.afterOptions options,
      hp.addAttributes (all_of_gather (entry_functional sys _) (hentry _ hi) hg)⟩

theorem ProcReader.do_read_allStored {fresh : ProcInfo} {out : Text}
    (hentry : ∀ i : ProcInfo, i.Known sys fresh → ∀ c ∈ options, ∀ a, entry sys i c = .ok a → P a)
    (hm : AllStored P procMap) (h : do_read sys fresh options procMap = .ok (out,m)) :
    AllStored P m := by
  obtain ⟨⟨st,m'⟩,ht,he⟩ := bind_eq_ok.mp h
  cases he
  exact (OMap.traverse_invariant (I := fun st : ProcLoop => st.info.Known sys fresh)
    (fun s t k p q hp hs hv => visit_allStored hentry hs (hm k p hp) hv)
    (ProcInfo.known_fresh sys fresh) ht).2

theorem readFileStatAttributes_all {T : UInt64} {fid pid : UInt32} {u u' : UnlinkedFile}
    (hentry : ∀ path stat, ∀ c ∈ options, ∀ a,
      FileStatReader.processOpiton sys c path stat = .ok a → P a)
    (hu : ∀ a ∈ u.attributes, P a) (h : readFileStatAttributes sys T options fid pid u = .ok u') :
    ∀ a ∈ u'.attributes, P a := by
  unfold readFileStatAttributes at h
  dsimp only at h
  cases hs : sys.stat (formPath T pid fid.toUInt64) with
  | none =>
    rw [hs] at h
    cases h
    exact hu
  | some stat =>
    rw [hs] at h
    obtain ⟨funcs,hg,he⟩ := bind_eq_ok.mp h
    cases he
    rw [FileStatReader.run_collect] at hg
    exact u.addAttributes_all hu (all_of_gather
      (FileStatReader.processOpiton_functional sys _ stat) (hentry _ stat) hg)

theorem FileStatReader.do_read_allStored {T : UInt64}
    (hentry : ∀ path stat, ∀ c ∈ options, ∀ a, processOpiton sys c path stat = .ok a → P a)
    (hm : AllStored P procMap) (h : do_read sys T options procMap = .ok m) : AllStored P m := by
  obtain ⟨⟨_,m'⟩,ht,he⟩ := bind_eq_ok.mp h
  cases he
  refine (OMap.traverse_invariant (I := fun _ : Unit => True) (fun _ _ k p q hp _ hv => ?_)
    trivial ht).2
  obtain ⟨q',hadd,he⟩ := map_eq_ok.mp hv
  cases he
  obtain ⟨files,hf,rfl⟩ := ProcFile.addFileAttributes_ok.mp hadd
  refine ⟨trivial,(hm k p hp).own,?_⟩
  refine (OMap.traverse_invariant (I := fun _ : Unit => True) (fun _ _ j u u' hu _ hv => ?_)
    trivial hf).2
  obtain ⟨v,hr,he⟩ := map_eq_ok.mp hv
  cases he
  exact ⟨trivial,readFileStatAttributes_all hentry ((hm k p hp).files j u hu) hr⟩

end

end Cphf
