import Cphf.CLib.OrderedMap

/-! Gathering: the entries computed from a list of items are collected in a map, the first
one of a key winning. When equal keys have equal values the list's order does not matter. -/
namespace CLib
variable {α κ ν ε : Type} [LinearOrder κ] {entry : α → Except ε (κ × ν)}

def gather (entry : α → Except ε (κ × ν)) (m : OMap κ ν) (l : List α) : Except ε (OMap κ ν) :=
  run (fun m a => entry a >>= fun e => .ok (m.insertNew e.1 e.2)) m l

/-- The gathering completes exactly when every entry can be computed. -/
theorem gather_ok_iff {m : OMap κ ν} {l : List α} :
    (∃ m', gather entry m l = .ok m') ↔ ∀ a ∈ l, ∃ e, entry a = .ok e := by
  induction l generalizing m with
  | nil => simp [gather]
  | cons a l ih =>
    have hcons : gather entry m (a :: l) = entry a >>= fun e =>
        gather entry (m.insertNew e.1 e.2) l := by
      unfold gather
      cases he : entry a <;> simp [he]
    rw [List.forall_mem_cons, hcons]
    cases he : entry a with
    | error e => simp
    | ok e => simp [ih]

theorem gather_congr {entry' : α → Except ε (κ × ν)} {m : OMap κ ν} {l : List α}
    (h : ∀ a ∈ l, entry a = entry' a) : gather entry m l = gather entry' m l := by
  induction l generalizing m with
  | nil => rfl
  | cons a l ih =>
    unfold gather at *
    rw [run_cons, run_cons, h a (by simp)]
    cases entry' a with
    | error e => rfl
    | ok e => exact ih fun b hb => h b (by simp [hb])

/-- The entries of the same key have the same value. -/
def Functional (entry : α → Except ε (κ × ν)) : Prop :=
  ∀ a b k v w, entry a = .ok (k,v) → entry b = .ok (k,w) → v = w

theorem find?_gather (hf : Functional entry) {l : List α} {m : OMap κ ν}
    (h : gather entry ∅ l = .ok m) (k : κ) (v : ν) :
    m.find? k = some v ↔ ∃ a ∈ l, entry a = .ok (k,v) := by
  refine run_history (I := fun pre (m : OMap κ ν) => ∀ k v, m.find? k = some v ↔
    ∃ a ∈ pre, entry a = .ok (k,v)) ?_ (by simp) h k v
  intro pre a s t hI ht k v
  obtain ⟨⟨j,w⟩,he,hins⟩ := bind_eq_ok.mp ht
  cases hins
  rw [OMap.find?_insertNew]
  simp only [List.mem_append, List.mem_singleton, or_and_right, exists_or, exists_eq_left, he,
    Except.ok.injEq, Prod.mk.injEq]
  split_ifs with hk
  · subst hk
    cases hold : s.find? k with
    | none =>
      have hno : ¬ ∃ a ∈ pre, entry a = .ok (k,v) := fun h => by
        rw [← hI, hold] at h
        cases h
      simp [hno]
    | some u =>
      obtain ⟨b,hb,hbe⟩ := (hI k u).mp hold
      have huw := hf b a k u w hbe he
      simp only [Option.getD_some, Option.some.injEq, true_and, ← huw]
      rw [← hI, hold, Option.some.injEq, or_self]
  · rw [hI]
    simp [Ne.symm hk]

/-- Gathering fewer items gives the map of more of them, filtered by their keys. -/
theorem gather_filter (hf : Functional entry) {l l' : List α} {m : OMap κ ν} {p : κ → Bool}
    (h : gather entry ∅ l = .ok m) (hsub : ∀ a ∈ l', a ∈ l)
    (hp : ∀ a ∈ l, ∀ k v, entry a = .ok (k,v) → (p k = true ↔ ∃ b ∈ l', ∃ w, entry b = .ok (k,w))) :
    gather entry ∅ l' = .ok (m.filter p) := by
  have hall := gather_ok_iff.mp ⟨m,h⟩
  obtain ⟨m',h'⟩ := gather_ok_iff (m := ∅).mpr fun a ha => hall a (hsub a ha)
  rw [h']
  congr 1
  apply OMap.ext_find?
  intro k
  rw [OMap.find?_filter]
  ext v
  rw [find?_gather hf h']
  constructor
  · rintro ⟨a,ha,he⟩
    have hk : p k = true := (hp a (hsub a ha) k v he).mpr ⟨a,ha,v,he⟩
    rw [if_pos hk, find?_gather hf h]
    exact ⟨a,hsub a ha,he⟩
  · intro hv
    split_ifs at hv with hk
    obtain ⟨a,ha,he⟩ := (find?_gather hf h k v).mp hv
    obtain ⟨b,hb,w,hw⟩ := (hp a ha k v he).mp hk
    exact ⟨b,hb,hf b a k w v hw he ▸ hw⟩

/-- A key is there once if some item gives it, and not at all if none does. -/
theorem count_gather [BEq κ] [LawfulBEq κ] (hf : Functional entry) {l : List α} {m : OMap κ ν}
    (h : gather entry ∅ l = .ok m) (k : κ) {given : Bool}
    (hgiven : given = true ↔ ∃ a ∈ l, ∃ v, entry a = .ok (k,v)) :
    (m.entries.map Prod.fst).count k = if given then 1 else 0 := by
  have hmem : k ∈ m.entries.map Prod.fst ↔ given = true := by
    rw [hgiven, List.mem_map]
    constructor
    · rintro ⟨⟨j,v⟩,he,rfl⟩
      obtain ⟨a,ha,hv⟩ := (find?_gather hf h j v).mp (OMap.mem_entries.mp he)
      exact ⟨a,ha,v,hv⟩
    · rintro ⟨a,ha,v,hv⟩
      exact ⟨(k,v),OMap.mem_entries.mpr ((find?_gather hf h k v).mpr ⟨a,ha,hv⟩),rfl⟩
  split_ifs with hg
  · exact List.count_eq_one_of_mem m.nodup_keys (hmem.mpr hg)
  · exact List.count_eq_zero_of_not_mem fun hk => hg (hmem.mp hk)

/-- The order and number of the items do not matter. -/
theorem gather_same (hf : Functional entry) {l l' : List α} {m : OMap κ ν}
    (hl : ∀ a, a ∈ l' ↔ a ∈ l) (h : gather entry ∅ l = .ok m) : gather entry ∅ l' = .ok m := by
  have hfilter := gather_filter (p := fun _ => true) hf h (fun a ha => (hl a).mp ha)
    fun a ha k v he => iff_of_true rfl ⟨a,(hl a).mpr ha,v,he⟩
  have hall : m.filter (fun _ => true) = m :=
    OMap.ext_entries (List.filter_eq_self.mpr fun _ _ => rfl)
  rw [hfilter, hall]

end CLib
