import Mathlib.Data.List.Forall2
import Mathlib.Data.List.Nodup

/-! Lists filtered, zipped and related one by one. -/
namespace CLib
variable {α β γ : Type}

theorem flatMap_ite (p : α → Bool) (f : α → List β) (l : List α) :
    (l.flatMap fun a => if p a then f a else []) = (l.filter p).flatMap f := by
  induction l with
  | nil => rfl
  | cons a l ih => cases h : p a <;> simp [h, ih]

theorem map_fst_zip_sublist (l : List α) (l' : List β) :
    ((l.zip l').map Prod.fst).Sublist l := by
  induction l generalizing l' with
  | nil => exact .refl []
  | cons a l ih =>
    cases l' with
    | nil => exact List.nil_sublist _
    | cons b l' => exact (ih l').cons_cons a

theorem filter_eq_singleton [DecidableEq γ] {f : α → γ} {l : List α}
    (h : (l.map f).Nodup) {a : α} (ha : a ∈ l) : l.filter (fun b => f b = f a) = [a] := by
  induction l with
  | nil => cases ha
  | cons b l ih =>
    obtain ⟨hb,hl⟩ := List.nodup_cons.mp h
    rcases List.mem_cons.mp ha with rfl | ha
    · have hnone : l.filter (fun b => f b = f a) = [] := by
        rw [List.filter_eq_nil_iff]
        intro c hc hfc
        exact hb (List.mem_map.mpr ⟨c,hc,by simpa using hfc⟩)
      rw [List.filter_cons_of_pos (by simp), hnone]
    · have hne : f b ≠ f a := fun he => hb (he ▸ List.mem_map_of_mem ha)
      rw [List.filter_cons_of_neg (by simpa using hne), ih hl ha]

/-- Lists with the same keys are related one by one when items with the same key are. -/
theorem forall₂_of_map_eq {R : α → β → Prop} {f : α → γ} {g : β → γ} {l : List α} {l' : List β}
    (h : l.map f = l'.map g) (hR : ∀ a ∈ l, ∀ b ∈ l', f a = g b → R a b) : l.Forall₂ R l' := by
  induction l generalizing l' with
  | nil =>
    rw [List.map_eq_nil_iff.mp h.symm]
    exact .nil
  | cons a l ih =>
    cases l' with
    | nil => cases h
    | cons b l' =>
      obtain ⟨hab,htail⟩ := List.cons.inj h
      refine .cons (hR a (by simp) b (by simp) hab) (ih htail fun a ha b hb => ?_)
      exact hR a (List.mem_cons_of_mem _ ha) b (List.mem_cons_of_mem _ hb)

/-- Items related one by one have the same keys. -/
theorem map_eq_of_forall₂ {R : α → β → Prop} {f : α → γ} {g : β → γ} {l : List α} {l' : List β}
    (h : l.Forall₂ R l') (hR : ∀ a b, R a b → f a = g b) : l.map f = l'.map g := by
  rw [← List.forall₂_eq_eq_eq, List.forall₂_map_left_iff, List.forall₂_map_right_iff]
  exact h.imp hR

theorem exists_of_forall₂ {R : α → β → Prop} {l : List α} {l' : List β} (h : l.Forall₂ R l')
    {a : α} (ha : a ∈ l) : ∃ b ∈ l', R a b := by
  induction h with
  | nil => cases ha
  | cons hab _ ih =>
    rcases List.mem_cons.mp ha with rfl | ha
    · exact ⟨_,List.mem_cons_self,hab⟩
    · obtain ⟨b,hb,hR⟩ := ih ha
      exact ⟨b,List.mem_cons_of_mem _ hb,hR⟩

/-- Two relations of one list with others relate these. -/
theorem forall₂_join {R : α → β → Prop} {S : α → γ → Prop} {Q : β → γ → Prop} {l : List α}
    {l₁ : List β} {l₂ : List γ} (h₁ : l.Forall₂ R l₁) (h₂ : l.Forall₂ S l₂)
    (hQ : ∀ a b c, R a b → S a c → Q b c) : l₁.Forall₂ Q l₂ := by
  induction h₁ generalizing l₂ with
  | nil =>
    cases h₂
    exact .nil
  | cons hab _ ih =>
    cases h₂ with
    | cons hac htail => exact .cons (hQ _ _ _ hab hac) (ih htail)

end CLib
