import Cphf.Readers.StatLine

/-! The members of the record that a stat file fills: when two records agree in one, and what
storing items leaves in them. -/
namespace Cphf
open CLib

/-- Two records have the same value in a member. -/
def StatField.same (i j : ProcInfo) : StatField → Prop
  | state => i.state = j.state
  | ppid => i.ppid = j.ppid
  | procgid => i.procgid = j.procgid
  | device => i.device = j.device
  | putime => i.putime = j.putime
  | pstime => i.pstime = j.pstime
  | pcutime => i.pcutime = j.pcutime
  | pcstime => i.pcstime = j.pcstime
  | starttime => i.starttime = j.starttime
  | vms => i.vms = j.vms
  | rss => i.rss = j.rss
  | textbegin => i.textbegin = j.textbegin
  | textend => i.textend = j.textend
  | stackbegin => i.stackbegin = j.stackbegin
  | esp => i.esp = j.esp
  | epi => i.epi = j.epi
  | databegin => i.databegin = j.databegin
  | dataend => i.dataend = j.dataend

section
variable {i j : ProcInfo}

theorem StatField.same_store_self (f : StatField) (x : Item) :
    f.same (f.store x i) (f.store x j) := by cases f <;> rfl

theorem StatField.same_store {f : StatField} (h : f.same i j) (g : StatField) (x : Item) :
    f.same (g.store x i) (g.store x j) := by
  cases g <;> cases f <;> first | exact h | rfl

theorem StatField.same_storeAll {f : StatField} (l : List (StatField × Item))
    (h : f.same i j ∨ f ∈ l.map Prod.fst) : f.same (storeAll l i) (storeAll l j) := by
  induction l generalizing i j with
  | nil => simpa [storeAll] using h
  | cons e l ih =>
    apply ih
    rcases h with h | h
    · exact .inl (same_store h e.1 e.2)
    · rcases List.mem_cons.mp h with rfl | h
      · exact .inl (same_store_self e.1 e.2)
      · exact .inr h

/-- Storing in another member does not interfere. -/
theorem StatField.store_comm {f g : StatField} (h : f ≠ g) (x y : Item) (i : ProcInfo) :
    f.store x (g.store y i) = g.store y (f.store x i) := by
  cases f <;> cases g <;> first | rfl | contradiction

theorem storeAll_store {f : StatField} {l : List (StatField × Item)} (h : f ∉ l.map Prod.fst)
    (x : Item) (i : ProcInfo) : storeAll l (f.store x i) = f.store x (storeAll l i) := by
  induction l generalizing i with
  | nil => rfl
  | cons e l ih =>
    rw [List.map_cons, List.mem_cons, not_or] at h
    change storeAll l (e.1.store e.2 (f.store x i)) = _
    rw [StatField.store_comm (Ne.symm h.1), ih h.2]
    rfl

end

namespace StatField
variable {i j k : ProcInfo}

theorem same_trans {f : StatField} (h : f.same i j) (h' : f.same j k) : f.same i k := by
  cases f <;> exact Eq.trans h h'

/-- The member has the value of an item. -/
def holds (x : Item) (i : ProcInfo) (f : StatField) : Prop := f.same i (f.store x i)

theorem holds_store (f : StatField) (x : Item) (i : ProcInfo) : f.holds x (f.store x i) :=
  same_store_self f x

theorem holds_store_ne {f g : StatField} (h : f ≠ g) {x : Item} (hi : f.holds x i) (y : Item) :
    f.holds x (g.store y i) := by
  unfold holds
  rw [store_comm h]
  exact same_store hi g y

theorem holds_storeAll {f : StatField} {x : Item} {l : List (StatField × Item)}
    (hn : (l.map Prod.fst).Nodup) (h : (f,x) ∈ l ∨ f.holds x i ∧ f ∉ l.map Prod.fst) :
    f.holds x (storeAll l i) := by
  induction l generalizing i with
  | nil => simpa [storeAll] using h
  | cons e l ih =>
    rw [List.map_cons, List.nodup_cons] at hn
    apply ih hn.2
    rcases h with h | ⟨hi,hf⟩
    · rcases List.mem_cons.mp h with rfl | h
      · exact .inr ⟨holds_store f x i,hn.1⟩
      · exact .inl h
    · rw [List.map_cons, List.mem_cons, not_or] at hf
      exact .inr ⟨holds_store_ne hf.1 hi e.2,hf.2⟩

end StatField

/-- A record is its members, its status, its identifier and its lookups. -/
theorem ProcInfo.ext_members {i j : ProcInfo} (h : ∀ f : StatField, f.same i j)
    (hinfo : i.info = j.info) (hpid : i.pid = j.pid) (hpw : i.pw = j.pw) (hgr : i.gr = j.gr) :
    i = j := by
  cases i
  cases j
  rw [ProcInfo.mk.injEq]
  exact ⟨h .device,h .state,hpid,h .ppid,h .procgid,h .putime,h .pstime,h .pcutime,h .pcstime,
    h .starttime,h .textbegin,h .textend,h .databegin,h .dataend,h .stackbegin,h .esp,h .epi,h .vms,
    h .rss,hinfo,hpw,hgr⟩

end Cphf
