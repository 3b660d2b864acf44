import Cphf.CLib.Lists
import Cphf.CLib.OrderedMap

/-! Two fallible computations in lockstep: they give related results or stop with the same
failure. Rules for sequences, runs and traversals; the keys a traversal sees may differ as long
as what is visited is related, and entries that a visit leaves alone may be missing. -/
namespace CLib
variable {ε α β γ δ σ τ : Type}

/-- Related results, or the same failure. -/
def Alike (R : α → β → Prop) : Except ε α → Except ε β → Prop
  | .ok a,.ok b => R a b
  | .error e,.error e' => e = e'
  | _,_ => False

@[simp] theorem alike_ok {R : α → β → Prop} {a : α} {b : β} :
    Alike R (.ok a : Except ε α) (.ok b) ↔ R a b := .rfl

@[simp] theorem alike_error {R : α → β → Prop} {e e' : ε} :
    Alike R (.error e) (.error e') ↔ e = e' := .rfl

@[simp] theorem not_alike_ok_error {R : α → β → Prop} {a : α} {e : ε} :
    ¬ Alike R (.ok a) (.error e) := id

@[simp] theorem not_alike_error_ok {R : α → β → Prop} {b : β} {e : ε} :
    ¬ Alike R (.error e) (.ok b) := id

section
variable {R : α → β → Prop} {x : Except ε α} {y : Except ε β}

theorem alike_eq {x y : Except ε α} : Alike (· = ·) x y ↔ x = y := by
  cases x <;> cases y <;> simp

theorem Alike.mono {S : α → β → Prop} (hRS : ∀ a b, R a b → S a b) (h : Alike R x y) :
    Alike S x y := by
  cases x with
  | error e =>
    cases y with
    | error e' => exact h
    | ok b => exact h
  | ok a =>
    cases y with
    | error e' => exact h
    | ok b => exact hRS a b h

/-- The sequence rule, where what follows may use that what precedes it succeeded. -/
theorem Alike.bind_ok {S : γ → δ → Prop} {f : α → Except ε γ} {g : β → Except ε δ}
    (h : Alike R x y) (hfg : ∀ a b, x = .ok a → y = .ok b → R a b → Alike S (f a) (g b)) :
    Alike S (x >>= f) (y >>= g) := by
  cases x with
  | error e =>
    cases y with
    | error e' => exact h
    | ok b => exact h.elim
  | ok a =>
    cases y with
    | error e' => exact h.elim
    | ok b => exact hfg a b rfl rfl h

theorem Alike.bind {S : γ → δ → Prop} {f : α → Except ε γ} {g : β → Except ε δ}
    (h : Alike R x y) (hfg : ∀ a b, R a b → Alike S (f a) (g b)) :
    Alike S (x >>= f) (y >>= g) := h.bind_ok fun a b _ _ => hfg a b

theorem alike_map {S : γ → δ → Prop} {f : α → γ} {g : β → δ} :
    Alike S (f <$> x) (g <$> y) ↔ Alike (fun a b => S (f a) (g b)) x y := by
  cases x <;> cases y <;> exact .rfl

end

/-- What each step of two runs over one list relates, the runs relate. -/
theorem run_alike {R : σ → τ → Prop} {f : σ → α → Except ε σ} {g : τ → α → Except ε τ} {l : List α}
    (hstep : ∀ s t, ∀ a ∈ l, R s t → Alike R (f s a) (g t a)) {s : σ} {t : τ} (h : R s t) :
    Alike R (run f s l) (run g t l) := by
  induction l generalizing s t with
  | nil => exact h
  | cons a l ih =>
    apply (hstep s t a List.mem_cons_self h).bind
    intro s' t' h'
    exact ih (fun s t b hb => hstep s t b (List.mem_cons_of_mem _ hb)) h'

section
variable {κ κ' ν ν' μ μ' : Type} {R : σ → τ → Prop} {E : κ × ν → κ' × ν' → Prop}
  {F : κ × μ → κ' × μ' → Prop} {f : σ → κ → ν → Except ε (σ × μ)}
  {g : τ → κ' → ν' → Except ε (τ × μ')}

/-- Two traversals of lists whose entries are related one by one. -/
theorem traverse_alike (hstep : ∀ s t e e', R s t → E e e' →
      Alike (fun r r' => R r.1 r'.1 ∧ F (e.1,r.2) (e'.1,r'.2)) (f s e.1 e.2) (g t e'.1 e'.2))
    {l : List (κ × ν)} {l' : List (κ' × ν')} (hl : l.Forall₂ E l') {s : σ} {t : τ} (h : R s t) :
    Alike (fun r r' => R r.1 r'.1 ∧ r.2.Forall₂ F r'.2) (traverse f s l) (traverse g t l') := by
  induction hl generalizing s t with
  | nil => exact ⟨h,.nil⟩
  | cons he _ ih =>
    apply (hstep s t _ _ h he).bind
    rintro a b ⟨hab,hval⟩
    apply (ih hab).bind
    rintro c d ⟨hcd,hvals⟩
    exact ⟨hcd,.cons hval hvals⟩

/-- The visits of a traversal, one by one. -/
theorem forall₂_traverse {s t : σ} {l : List (κ × ν)} {l' : List (κ × μ)}
    (h : traverse f s l = .ok (t,l')) :
    l.Forall₂ (fun e e' => e.1 = e'.1 ∧ ∃ u v, f u e.1 e.2 = .ok (v,e'.2)) l' := by
  induction l generalizing s l' with
  | nil =>
    cases h
    exact .nil
  | cons e l ih =>
    obtain ⟨u,w,l₁,hu,hl,rfl⟩ := traverse_cons_ok.mp h
    exact .cons ⟨rfl,s,u,hu⟩ (ih hl)

/-- A traversal whose visits change nothing. -/
theorem traverse_self {f : σ → κ → ν → Except ε (σ × ν)} {l : List (κ × ν)}
    (h : ∀ e ∈ l, ∀ s, f s e.1 e.2 = .ok (s,e.2)) (s : σ) : traverse f s l = .ok (s,l) := by
  induction l generalizing s with
  | nil => rfl
  | cons e l ih =>
    obtain ⟨he,hl⟩ := List.forall_mem_cons.mp h
    exact traverse_cons_ok.mpr ⟨s,e.2,l,he s,ih hl s,rfl⟩

/-- Entries whose visits change nothing can be left out of a traversal. -/
theorem traverse_filter {f : σ → κ → ν → Except ε (σ × ν)} {keep : κ → Bool} {l : List (κ × ν)}
    (h : ∀ e ∈ l, keep e.1 = false → ∀ s, f s e.1 e.2 = .ok (s,e.2)) (s : σ) :
    (fun r => (r.1,r.2.filter (keep ·.1))) <$> traverse f s l =
      traverse f s (l.filter (keep ·.1)) := by
  induction l generalizing s with
  | nil => rfl
  | cons e l ih =>
    obtain ⟨he,hl⟩ := List.forall_mem_cons.mp h
    cases hk : keep e.1 with
    | false =>
      rw [List.filter_cons, if_neg (by simp [hk]), ← ih hl s, traverse, he hk s, ok_bind]
      cases traverse f s l with
      | error => rfl
      | ok r => simp [hk]
    | true =>
      rw [List.filter_cons, if_pos hk, traverse, traverse]
      cases f s e.1 e.2 with
      | error => rfl
      | ok r =>
        rw [ok_bind, ok_bind, ← ih hl r.1]
        cases traverse f r.1 l with
        | error => rfl
        | ok r' => simp [hk]

namespace OMap
variable [LinearOrder κ] [LinearOrder κ']

/-- The entries a traversal leaves are those of the traversed list. -/
theorem traverse_entries (m : OMap κ ν) (f : σ → κ → ν → Except ε (σ × μ)) (s : σ) :
    (fun r => (r.1,r.2.entries)) <$> m.traverse f s = CLib.traverse f s m.entries := by
  cases h : CLib.traverse f s m.entries with
  | error e =>
    unfold traverse
    split
    · rename_i h'
      rw [h] at h'
      cases h'
      rfl
    · rename_i h'
      rw [h] at h'
      cases h'
  | ok r =>
    have hs : (r.2.map Prod.fst).Pairwise (· < ·) := by
      rw [traverse_keys h]
      exact m.sorted
    have ht : m.traverse f s = .ok (r.1,⟨r.2,hs⟩) := traverse_ok.mpr h
    rw [ht]
    rfl

theorem traverse_alike (hstep : ∀ s t e e', R s t → E e e' →
      Alike (fun r r' => R r.1 r'.1 ∧ F (e.1,r.2) (e'.1,r'.2)) (f s e.1 e.2) (g t e'.1 e'.2))
    {m : OMap κ ν} {m' : OMap κ' ν'} (hm : m.entries.Forall₂ E m'.entries) {s : σ} {t : τ}
    (h : R s t) : Alike (fun r r' => R r.1 r'.1 ∧ r.2.entries.Forall₂ F r'.2.entries)
      (m.traverse f s) (m'.traverse g t) := by
  have ht := CLib.traverse_alike hstep hm h
  rw [← traverse_entries, ← traverse_entries] at ht
  exact alike_map.mp ht

/-- Entries whose visits change nothing can be left out of a map. -/
theorem traverse_filter {f : σ → κ → ν → Except ε (σ × ν)} {keep : κ → Bool} {m : OMap κ ν}
    (h : ∀ k v, m.find? k = some v → keep k = false → ∀ s, f s k v = .ok (s,v)) (s : σ) :
    (fun r => (r.1,r.2.filter keep)) <$> m.traverse f s = (m.filter keep).traverse f s := by
  have hlist : (fun r => (r.1,r.2.filter (keep ·.1))) <$> CLib.traverse f s m.entries =
      CLib.traverse f s (m.entries.filter (keep ·.1)) :=
    CLib.traverse_filter (fun e he => h e.1 e.2 (mem_entries.mp he)) s
  have hfilter : (fun r => (r.1,r.2.entries)) <$> (m.filter keep).traverse f s =
      CLib.traverse f s (m.entries.filter (keep ·.1)) := traverse_entries _ f s
  rw [← hlist, ← traverse_entries] at hfilter
  cases hm : m.traverse f s <;> cases hk : (m.filter keep).traverse f s <;>
    rw [hm, hk] at hfilter
  · cases hfilter
    rfl
  · cases hfilter
  · cases hfilter
  · obtain ⟨hs,he⟩ := Prod.mk.inj (Except.ok.inj hfilter)
    exact congrArg Except.ok (Prod.ext hs.symm (ext_entries he.symm))

end OMap
end
end CLib
