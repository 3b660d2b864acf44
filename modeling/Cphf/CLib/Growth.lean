import Cphf.CLib.OrderedMap

/-! Maps that only grow: every entry stays under its key, with a value related to the one it
had. Insertion and an update through a reference each grow a map, and a run whose
steps all grow its state does. -/
namespace CLib

/-- What each step of a run relates, the run relates. -/
theorem run_related {ε α σ : Type} {step : σ → α → Except ε σ} {R : σ → σ → Prop}
    (hrefl : ∀ s, R s s) (htrans : ∀ s t u, R s t → R t u → R s u) {l : List α}
    (hstep : ∀ s, ∀ a ∈ l, ∀ t, step s a = .ok t → R s t) {s t : σ} (h : run step s l = .ok t) :
    R s t := by
  apply run_invariant_mem (I := R s) (fun u a ha t hu ht => ?_) (hrefl s) h
  exact htrans s u t hu (hstep u a ha t ht)

namespace OMap
variable {κ ν σ ε : Type} [LinearOrder κ] {R : ν → ν → Prop} {m m' m'' : OMap κ ν}

/-- Every entry of a map is still in another one, with a related value. -/
def Grows (R : ν → ν → Prop) (m m' : OMap κ ν) : Prop :=
  ∀ k v, m.find? k = some v → ∃ w, m'.find? k = some w ∧ R v w

theorem Grows.refl (hR : ∀ v, R v v) (m : OMap κ ν) : m.Grows R m := fun _ v hv => ⟨v,hv,hR v⟩

theorem Grows.trans (hR : ∀ u v w, R u v → R v w → R u w) (h : m.Grows R m')
    (h' : m'.Grows R m'') : m.Grows R m'' := by
  intro k u hu
  obtain ⟨v,hv,huv⟩ := h k u hu
  obtain ⟨w,hw,hvw⟩ := h' k v hv
  exact ⟨w,hw,hR u v w huv hvw⟩

theorem grows_insertNew (hR : ∀ v, R v v) (m : OMap κ ν) (k : κ) (v : ν) :
    m.Grows R (m.insertNew k v) := by
  intro j w hw
  refine ⟨w,?_,hR w⟩
  rw [find?_insertNew]
  split_ifs with hj
  · rw [← hj, hw, Option.getD_some]
  · exact hw

theorem grows_modify (hR : ∀ v, R v v) (m : OMap κ ν) (k : κ) {f : ν → ν}
    (hf : ∀ v, m.find? k = some v → R v (f v)) : m.Grows R (m.modify k f) := by
  intro j w hw
  rw [find?_modify]
  split_ifs with hj
  · subst hj
    exact ⟨f w,by rw [hw, Option.map_some],hf w hw⟩
  · exact ⟨w,hw,hR w⟩

/-- Every entry of a map satisfies a condition. -/
def Each (P : κ → ν → Prop) (m : OMap κ ν) : Prop := ∀ k v, m.find? k = some v → P k v

section
variable {P : κ → ν → Prop}

theorem each_empty : (∅ : OMap κ ν).Each P := fun _ _ h => by cases h

theorem Each.insertNew (h : m.Each P) {k : κ} {v : ν} (hv : m.find? k = none → P k v) :
    (m.insertNew k v).Each P := by
  intro j w hw
  rw [find?_insertNew] at hw
  split_ifs at hw with hj
  · subst hj
    cases hold : m.find? j with
    | some u =>
      -- what is there already stays
      rw [hold, Option.getD_some, Option.some.injEq] at hw
      exact hw ▸ h j u hold
    | none =>
      rw [hold, Option.getD_none, Option.some.injEq] at hw
      exact hw ▸ hv hold
  · exact h j w hw

theorem Each.modify (h : m.Each P) {k : κ} {f : ν → ν} (hf : ∀ v, P k v → P k (f v)) :
    (m.modify k f).Each P := by
  intro j w hw
  rw [find?_modify] at hw
  split_ifs at hw with hj
  · subst hj
    obtain ⟨v,hv,rfl⟩ := Option.map_eq_some_iff.mp hw
    exact hf v (h j v hv)
  · exact h j w hw

theorem Each.traverse (h : m.Each P) {f : σ → κ → ν → Except ε (σ × ν)}
    (hf : ∀ s t k v w, P k v → f s k v = .ok (t,w) → P k w) {s t : σ}
    (ht : m.traverse f s = .ok (t,m')) : m'.Each P :=
  (traverse_invariant (I := fun _ => True)
    (fun s t k v w hv _ hs => ⟨trivial,hf s t k v w (h k v hv) hs⟩) trivial ht).2

end

/-- A map whose only key is a given one. -/
theorem entries_eq_singleton {k : κ} {v : ν}
    (h : m.Each fun j _ => j = k) (hv : m.find? k = some v) : m.entries = [(k,v)] := by
  have hall : ∀ e ∈ m.entries, e = (k,v) := by
    rintro ⟨j,w⟩ he
    have hj := h j w (mem_entries.mp he)
    subst hj
    rw [mem_entries.mp he] at hv
    rw [Option.some.inj hv]
  have hnodup := m.nodup_entries
  cases hm : m.entries with
  | nil =>
    have hmem := mem_entries.mpr hv
    rw [hm] at hmem
    cases hmem
  | cons e l =>
    rw [hm] at hall hnodup
    cases l with
    | nil => rw [hall e List.mem_cons_self]
    | cons e' l =>
      rw [hall e List.mem_cons_self, hall e' (by simp)] at hnodup
      simp at hnodup

end OMap
end CLib
