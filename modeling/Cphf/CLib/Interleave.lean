import Cphf.CLib.OrderedMap

/-! Steps whose order does not matter. Fallible steps swap when each order gets to the same
states; steps of two kinds that swap can be separated in any run. Two traversals swap when their
visits do. -/
namespace CLib
variable {ε α σ τ κ ν : Type}

/-- Two inputs may be taken in either order. -/
def Swaps (step : σ → α → Except ε σ) (a b : α) : Prop :=
  ∀ s t, run step s [a,b] = .ok t ↔ run step s [b,a] = .ok t

section
variable {step : σ → α → Except ε σ} {s t : σ}

theorem run_pair_ok {a b : α} :
    run step s [a,b] = .ok t ↔ ∃ u, step s a = .ok u ∧ step u b = .ok t := by
  rw [run_cons, bind_eq_ok]
  simp only [run_singleton]

/-- An input passes those it swaps with. -/
theorem run_cons_swaps {b : α} {l : List α} (h : ∀ a ∈ l, Swaps step a b) :
    run step s (b :: l) = .ok t ↔ run step s (l ++ [b]) = .ok t := by
  induction l generalizing s with
  | nil => exact .rfl
  | cons a l ih =>
    have hpass : run step s (b :: a :: l) = .ok t ↔ run step s (a :: b :: l) = .ok t := by
      rw [show b :: a :: l = [b,a] ++ l from rfl, show a :: b :: l = [a,b] ++ l from rfl,
        run_append_ok, run_append_ok]
      exact exists_congr fun u => and_congr_left fun _ => (h a List.mem_cons_self s u).symm
    rw [hpass, List.cons_append, run_cons, run_cons, bind_eq_ok, bind_eq_ok]
    exact exists_congr fun u => and_congr_right fun _ => ih fun c hc => h c (List.mem_cons_of_mem _ hc)

/-- Inputs of two kinds that swap can be taken kind by kind. -/
theorem run_separate (kind : α → Bool) {l : List α}
    (h : ∀ a ∈ l, ∀ b ∈ l, kind a = true → kind b = false → Swaps step a b) :
    run step s l = .ok t ↔ run step s (l.filter kind ++ l.filter (!kind ·)) = .ok t := by
  induction l generalizing s with
  | nil => exact .rfl
  | cons b l ih =>
    have hl : ∀ u, run step u l = .ok t ↔
        run step u (l.filter kind ++ l.filter (!kind ·)) = .ok t := fun u =>
      ih fun a ha c hc => h a (List.mem_cons_of_mem _ ha) c (List.mem_cons_of_mem _ hc)
    rw [run_cons, bind_eq_ok]
    simp only [hl]
    cases hb : kind b with
    | true => simp [hb, bind_eq_ok]
    | false =>
      have hpass : ∀ a ∈ l.filter kind, Swaps step a b := by
        intro a ha
        obtain ⟨ha,hk⟩ := List.mem_filter.mp ha
        exact h a (List.mem_cons_of_mem _ ha) b List.mem_cons_self hk hb
      have hrun : (∃ u, step s b = .ok u ∧
          run step u (l.filter kind ++ l.filter (!kind ·)) = .ok t) ↔
          run step s ((b :: l.filter kind) ++ l.filter (!kind ·)) = .ok t := by
        rw [List.cons_append, run_cons, bind_eq_ok]
      rw [hrun, run_append_ok]
      simp only [run_cons_swaps hpass]
      rw [← run_append_ok]
      simp [hb]

end

section
variable {f : σ → κ → ν → Except ε (σ × ν)} {g : τ → κ → ν → Except ε (τ × ν)}

/-- Visits that can be made in the other order. -/
theorem traverse_swap (h : ∀ s t s' t' k v u w, f s k v = .ok (s',u) → g t k u = .ok (t',w) →
      ∃ u', g t k v = .ok (t',u') ∧ f s k u' = .ok (s',w))
    {s s' : σ} {t t' : τ} {l l₁ l₂ : List (κ × ν)} (hf : traverse f s l = .ok (s',l₁))
    (hg : traverse g t l₁ = .ok (t',l₂)) :
    ∃ l', traverse g t l = .ok (t',l') ∧ traverse f s l' = .ok (s',l₂) := by
  induction l generalizing s t l₁ l₂ with
  | nil =>
    cases hf
    cases hg
    exact ⟨[],rfl,rfl⟩
  | cons e l ih =>
    obtain ⟨u,v,r,hv,hfl,rfl⟩ := traverse_cons_ok.mp hf
    obtain ⟨w,x,r₂,hx,hgl,rfl⟩ := traverse_cons_ok.mp hg
    obtain ⟨y,hy,hfy⟩ := h _ _ _ _ _ _ _ _ hv hx
    obtain ⟨l',hl,hr⟩ := ih hfl hgl
    exact ⟨(e.1,y) :: l',traverse_cons_ok.mpr ⟨w,y,l',hy,hl,rfl⟩,
      traverse_cons_ok.mpr ⟨u,x,r₂,hfy,hr,rfl⟩⟩

theorem OMap.traverse_swap [LinearOrder κ] (h : ∀ s t s' t' k v u w, f s k v = .ok (s',u) →
      g t k u = .ok (t',w) → ∃ u', g t k v = .ok (t',u') ∧ f s k u' = .ok (s',w))
    {s s' : σ} {t t' : τ} {m m₁ m₂ : OMap κ ν} (hf : m.traverse f s = .ok (s',m₁))
    (hg : m₁.traverse g t = .ok (t',m₂)) :
    ∃ m', m.traverse g t = .ok (t',m') ∧ m'.traverse f s = .ok (s',m₂) := by
  obtain ⟨l',hl,hr⟩ := CLib.traverse_swap h (traverse_ok.mp hf) (traverse_ok.mp hg)
  exact ⟨⟨l',by rw [traverse_keys hl]; exact m.sorted⟩,traverse_ok.mpr hl,traverse_ok.mpr hr⟩

end
end CLib
