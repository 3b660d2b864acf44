import Cphf.Readers.Base
import Cphf.CLib.SearchTree

/-! Maps from ranges of minor numbers. `MinorDevRange.lt` makes overlapping ranges equivalent, so
it orders disjoint ranges only; a point then goes with the one range that contains it. -/
namespace Cphf
open CLib

namespace MinorDevRange

/-- The range of a single number, as `readDevice` looks it up. -/
def point (m : ℕ) : MinorDevRange := ⟨m,m⟩

def Contains (r : MinorDevRange) (m : ℕ) : Prop := r.min ≤ m ∧ m ≤ r.max

/-- No number lies in both ranges. -/
def Apart (a b : MinorDevRange) : Prop := a.max < b.min ∨ b.max < a.min

section
variable {a b : MinorDevRange} (ha : a.min ≤ a.max) (hb : b.min ≤ b.max)

include hb in
theorem lt_iff : lt a b ↔ b.max < a.min := by
  rw [lt, Bool.and_eq_true, decide_eq_true_eq, decide_eq_true_eq]
  omega

include ha hb in
theorem equivalent_iff : Equivalent lt a b ↔ ¬ a.Apart b := by
  rw [Equivalent, ← Bool.not_eq_true, ← Bool.not_eq_true, lt_iff ha, lt_iff hb, Apart]
  omega

include ha in
theorem equivalent_point (m : ℕ) : Equivalent lt a (point m) ↔ a.Contains m := by
  rw [equivalent_iff ha (le_refl m), Apart, Contains]
  change ¬ (a.max < m ∨ m < a.min) ↔ _
  omega

end

theorem not_lt_self {a : MinorDevRange} (ha : a.min ≤ a.max) : ¬ lt a a := by
  rw [lt_iff ha]
  omega

theorem lt_trans {a b c : MinorDevRange} (hb : b.min ≤ b.max) (hc : c.min ≤ c.max) (hab : lt a b)
    (hbc : lt b c) : lt a c := by
  rw [lt_iff hb] at hab
  rw [lt_iff hc] at hbc ⊢
  omega

section
variable {S : Set MinorDevRange} (hle : ∀ r ∈ S, r.min ≤ r.max)
    (hapart : ∀ a ∈ S, ∀ b ∈ S, a ≠ b → a.Apart b) (m : ℕ)
include hle

lemma le_of_mem {r : MinorDevRange} (hr : r ∈ S ∪ {point m}) : r.min ≤ r.max := by
  cases hr with
  | inl hr => exact hle r hr
  | inr hr =>
    rw [Set.mem_singleton_iff.mp hr]
    exact le_refl m

include hapart

/-- Beside a point, a range that overlaps two others is one of them or is the point. -/
theorem overlap_trans {a b c : MinorDevRange} (ha : a ∈ S ∪ {point m}) (hb : b ∈ S ∪ {point m})
    (hc : c ∈ S ∪ {point m}) (hab : ¬ a.Apart b) (hbc : ¬ b.Apart c) : ¬ a.Apart c := by
  have heq : ∀ a ∈ S, ∀ b ∈ S, ¬ a.Apart b → a = b := fun a ha b hb h =>
    not_ne_iff.mp fun hne => h (hapart a ha b hb hne)
  cases hb with
  | inl hb =>
    cases ha with
    | inl ha => rw [heq a ha b hb hab]; exact hbc
    | inr ha =>
      cases hc with
      | inl hc => rw [← heq b hb c hc hbc]; exact hab
      | inr hc =>
        rw [Set.mem_singleton_iff.mp ha, Set.mem_singleton_iff.mp hc, Apart]
        exact fun h => (lt_irrefl m) (h.elim id id)
  | inr hb =>
    -- the point lies in both
    have hle' := fun {r : MinorDevRange} => @le_of_mem S hle m r
    cases Set.mem_singleton_iff.mp hb
    have ham := (equivalent_point (hle' ha) m).mp
      ((equivalent_iff (hle' ha) (le_refl m)).mpr hab)
    have hcm := (equivalent_point (hle' hc) m).mp
      ((equivalent_iff (hle' hc) (le_refl m)).mpr fun h => hbc h.symm)
    rw [Contains] at ham hcm
    rw [Apart]
    omega

/-- Ranges of which no two overlap are ordered strictly and weakly, also beside a point: it is
equivalent to the range that contains it and to no other. -/
theorem strictWeakOn : StrictWeakOn lt (S ∪ {point m}) := by
  have hle' := fun {r : MinorDevRange} => @le_of_mem S hle m r
  have hincomp : ∀ a ∈ S ∪ {point m}, ∀ b ∈ S ∪ {point m},
      (¬ lt a b ∧ ¬ lt b a ↔ ¬ a.Apart b) := by
    intro a ha b hb
    rw [← equivalent_iff (hle' ha) (hle' hb), Equivalent, Bool.not_eq_true, Bool.not_eq_true]
  refine { irrefl := ?_, trans := ?_, incomp_trans := ?_ }
  · intro ⟨a,ha⟩
    exact not_lt_self (hle' ha)
  · intro ⟨a,ha⟩ ⟨b,hb⟩ ⟨c,hc⟩ hab hbc
    exact lt_trans (hle' hb) (hle' hc) hab hbc
  · intro ⟨a,ha⟩ ⟨b,hb⟩ ⟨c,hc⟩ hab hbc
    rw [hincomp a ha b hb] at hab
    rw [hincomp b hb c hc] at hbc
    rw [hincomp a ha c hc]
    exact overlap_trans hle hapart m ha hb hc hab hbc

end

end MinorDevRange

instance : Std.Symm fun a b : MinorDevRange × Text => a.1.Apart b.1 := ⟨fun _ _ h => h.symm⟩

/-- Entries no range of which is empty and no two of which overlap. -/
structure DisjointRanges (l : MinorMap) : Prop where
  le : ∀ e ∈ l, e.1.min ≤ e.1.max
  apart : l.Pairwise fun a b => a.1.Apart b.1

namespace DisjointRanges
variable {l l' : MinorMap}

theorem perm (h : DisjointRanges l) (hp : l'.Perm l) : DisjointRanges l' where
  le e he := h.le e (hp.mem_iff.mp he)
  apart := (hp.pairwise_iff fun hab => hab.symm).mpr h.apart

theorem strictWeakOn (h : DisjointRanges l) (m : ℕ) :
    StrictWeakOn MinorDevRange.lt ({r | r ∈ l.map Prod.fst} ∪ {.point m}) := by
  apply MinorDevRange.strictWeakOn
  · intro r hr
    obtain ⟨e,he,rfl⟩ := List.mem_map.mp hr
    exact h.le e he
  · intro a ha b hb hne
    obtain ⟨e,he,rfl⟩ := List.mem_map.mp ha
    obtain ⟨f,hf,rfl⟩ := List.mem_map.mp hb
    exact h.apart.forall he hf fun hef => hne (congrArg Prod.fst hef)

theorem mem_keys {m : ℕ} {e : MinorDevRange × Text} (he : e ∈ l) :
    e.1 ∈ {r | r ∈ l.map Prod.fst} ∪ {MinorDevRange.point m} :=
  .inl (List.mem_map_of_mem he)

/-- Disjoint ranges are all kept. -/
theorem inserted_perm (h : DisjointRanges l) : (inserted MinorDevRange.lt l).Perm l := by
  apply CLib.inserted_perm
  apply h.apart.imp_of_mem
  intro a b ha hb hab
  rw [MinorDevRange.lt_iff (h.le a ha), MinorDevRange.lt_iff (h.le b hb)]
  exact hab.symm

/-- The search for a point finds the range that contains it. -/
theorem findEntry_point (h : DisjointRanges l) (m : ℕ) {e : MinorDevRange × Text} :
    findEntry MinorDevRange.lt (.point m) (inserted MinorDevRange.lt l) = some e ↔
      e ∈ l ∧ e.1.Contains m := by
  rw [findEntry_eq_some (h.strictWeakOn m) (inserted_orderedBy (h.strictWeakOn m)
    fun e he => mem_keys he) (fun e he => mem_keys (mem_of_mem_inserted he)) (.inr rfl),
    h.inserted_perm.mem_iff]
  apply and_congr_right
  intro he
  exact MinorDevRange.equivalent_point (h.le e he) m

end DisjointRanges

/-- What a map with disjoint ranges as its keys does, whatever the order of their insertion and
the shape of its tree. -/
structure RangesFound (l : MinorMap) : Prop where
  order : ∀ m, StrictWeakOn MinorDevRange.lt ({r | r ∈ l.map Prod.fst} ∪ {.point m})
  kept : ∀ l' t, l'.Perm l → Tree.Built MinorDevRange.lt l' t → t.entries.Perm l
  found : ∀ l' t, l'.Perm l → Tree.Built MinorDevRange.lt l' t → ∀ m e,
    t.find? MinorDevRange.lt (.point m) = some e ↔ e ∈ l ∧ e.1.Contains m
  label : ∀ l' (deviceMap : DeviceMap) major, l'.Perm l →
    deviceMap.find? major = some (inserted MinorDevRange.lt l') → ∀ m v,
      deviceMap.label major m = some v ↔ ∃ r, (r,v) ∈ l ∧ r.Contains m

/-- Disjoint ranges are a proper set of keys: each is kept as its own entry, and the lookup of a
number finds the range that contains it, if there is one. -/
theorem minorRanges_found {l : MinorMap} (h : DisjointRanges l) : RangesFound l where
  order := h.strictWeakOn
  kept l' t hp ht := by
    have h' := h.perm hp
    rw [ht.entries_eq (h'.strictWeakOn 0) fun e he => DisjointRanges.mem_keys he]
    exact h'.inserted_perm.trans hp
  found l' t hp ht m e := by
    have h' := h.perm hp
    rw [ht.find?_eq (h'.strictWeakOn m) (fun e he => DisjointRanges.mem_keys he) (.inr rfl),
      h'.findEntry_point, hp.mem_iff]
  label l' deviceMap major hp hd m v := by
    have h' := h.perm hp
    rw [DeviceMap.label, hd]
    change lookup MinorDevRange.lt (.point m) (inserted MinorDevRange.lt l') = some v ↔ _
    rw [lookup_eq_findEntry, Option.map_eq_some_iff]
    constructor
    · intro ⟨e,he,hv⟩
      obtain ⟨hm,hc⟩ := (h'.findEntry_point m).mp he
      exact ⟨e.1,by rw [← hv]; exact hp.mem_iff.mp hm,hc⟩
    · intro ⟨r,hm,hc⟩
      exact ⟨(r,v),(h'.findEntry_point m).mpr ⟨hp.mem_iff.mpr hm,hc⟩,rfl⟩

/-- Three ranges in no particular order. -/
def threeRanges : MinorMap :=
  [(⟨16,31⟩,"a".toList),(⟨64,64⟩,"b".toList),(⟨0,7⟩,"c".toList)]

/-- The tree they make in this order. -/
def threeTree : Tree MinorDevRange Text :=
  .node (.node .leaf ⟨64,64⟩ "b".toList .leaf) ⟨16,31⟩ "a".toList
    (.node .leaf ⟨0,7⟩ "c".toList .leaf)

lemma threeTree_built : Tree.Built MinorDevRange.lt threeRanges threeTree := by
  have h1 : Tree.Built MinorDevRange.lt (threeRanges.take 1)
      (.node .leaf ⟨16,31⟩ "a".toList .leaf) := .insert .nil rfl
  have h2 : Tree.Built MinorDevRange.lt (threeRanges.take 2)
      (.node (.node .leaf ⟨64,64⟩ "b".toList .leaf) ⟨16,31⟩ "a".toList .leaf) := .insert h1 rfl
  exact .insert h2 rfl

theorem minorRanges_found_three :
    Tree.Built MinorDevRange.lt threeRanges threeTree ∧ RangesFound threeRanges := by
  constructor
  · exact threeTree_built
  · apply minorRanges_found
    constructor
    · decide
    · simp [threeRanges, MinorDevRange.Apart]

end Cphf
