import Mathlib

/-! Loops that may fail: inversion of their runs, invariants, and the states a run
passes through. -/
namespace CLib
variable {ε α β σ τ : Type}

@[simp] theorem ok_bind (a : α) (f : α → Except ε β) : (.ok a >>= f) = f a := rfl

@[simp] theorem error_bind (e : ε) (f : α → Except ε β) : (.error e >>= f) = .error e := rfl

/-- A sequence of two computations succeeds only through a success of the first. -/
theorem bind_eq_ok {f : α → Except ε β} {b : β} :
    ∀ {x : Except ε α}, (x >>= f) = .ok b ↔ ∃ a, x = .ok a ∧ f a = .ok b
  | .error _ => by simp
  | .ok _ => by simp

@[simp] theorem map_eq_ok {f : α → β} {b : β} :
    ∀ {x : Except ε α}, f <$> x = .ok b ↔ ∃ a, x = .ok a ∧ f a = b
  | .error _ => by simp [Functor.map, Except.map]
  | .ok _ => by simp [Functor.map, Except.map]

/-- A computation gives a result. -/
def Completes (x : Except ε α) : Prop := ∃ a, x = .ok a

@[simp] theorem completes_ok (a : α) : Completes (.ok a : Except ε α) := ⟨a,rfl⟩

@[simp] theorem not_completes_error (e : ε) : ¬ Completes (.error e : Except ε α) := by
  rintro ⟨a,h⟩
  cases h

theorem completes_bind {x : Except ε α} {f : α → Except ε β} :
    Completes (x >>= f) ↔ ∃ a, x = .ok a ∧ Completes (f a) := by
  cases x <;> simp

/-- What follows a computation and never fails does not matter. -/
@[simp] theorem completes_bind_ok {x : Except ε α} {f : α → β} :
    Completes (x >>= fun a => .ok (f a)) ↔ Completes x := by
  cases x <;> simp

@[simp] theorem completes_map {x : Except ε α} {f : α → β} : Completes (f <$> x) ↔ Completes x := by
  cases x <;> simp [Functor.map, Except.map]

/-- Run a loop body over a list of inputs; the first failure ends the run. -/
def run (step : σ → α → Except ε σ) : σ → List α → Except ε σ
  | s,[] => .ok s
  | s,a :: l => step s a >>= fun s' => run step s' l

section
variable {step : σ → α → Except ε σ}

@[simp] theorem run_nil (s : σ) : run step s [] = .ok s := rfl

@[simp] theorem run_cons (s : σ) (a : α) (l : List α) :
    run step s (a :: l) = step s a >>= fun s' => run step s' l := rfl

theorem run_singleton (s : σ) (a : α) : run step s [a] = step s a := by
  cases h : step s a <;> simp [h]

theorem run_append (s : σ) (l l' : List α) :
    run step s (l ++ l') = run step s l >>= fun s' => run step s' l' := by
  induction l generalizing s with
  | nil => rfl
  | cons a l ih =>
    cases h : step s a with
    | error e => simp [h]
    | ok t => simp [h, ih]

theorem run_append_ok {s t : σ} {l l' : List α} :
    run step s (l ++ l') = .ok t ↔ ∃ u, run step s l = .ok u ∧ run step u l' = .ok t := by
  rw [run_append, bind_eq_ok]

theorem run_snoc_ok {s t : σ} {l : List α} {a : α} :
    run step s (l ++ [a]) = .ok t ↔ ∃ u, run step s l = .ok u ∧ step u a = .ok t := by
  rw [run_append_ok]
  simp [bind_eq_ok]

theorem run_map {γ : Type} (f : γ → α) (s : σ) (l : List γ) :
    run step s (l.map f) = run (fun s a => step s (f a)) s l := by
  induction l generalizing s with
  | nil => rfl
  | cons a l ih =>
    cases h : step s (f a) with
    | error e => simp [h]
    | ok t => simp [h, ih]

/-- The invariant rule: what one iteration preserves, a whole run preserves. -/
theorem run_invariant_mem {I : σ → Prop} {l : List α}
    (hstep : ∀ s, ∀ a ∈ l, ∀ t, I s → step s a = .ok t → I t) {s t : σ} (hs : I s)
    (h : run step s l = .ok t) : I t := by
  induction l generalizing s with
  | nil => cases h; exact hs
  | cons a l ih =>
    obtain ⟨u,hu,ht⟩ := bind_eq_ok.mp h
    exact ih (fun s b hb => hstep s b (by simp [hb])) (hstep s a (by simp) u hs hu) ht

theorem run_invariant {I : σ → Prop} (hstep : ∀ s a t, I s → step s a = .ok t → I t)
    {s t : σ} {l : List α} (hs : I s) (h : run step s l = .ok t) : I t :=
  run_invariant_mem (fun s a _ => hstep s a) hs h

theorem run_history_from {I : List α → σ → Prop}
    (hstep : ∀ pre a s t, I pre s → step s a = .ok t → I (pre ++ [a]) t)
    (pre : List α) {l : List α} {s t : σ} (hs : I pre s) (h : run step s l = .ok t) :
    I (pre ++ l) t := by
  induction l generalizing pre s with
  | nil =>
    cases h
    simpa using hs
  | cons a l ih =>
    obtain ⟨u,hu,ht⟩ := bind_eq_ok.mp h
    simpa using ih (pre ++ [a]) (hstep pre a s u hs hu) ht

/-- The invariant rule with the inputs read so far in view. -/
theorem run_history {I : List α → σ → Prop}
    (hstep : ∀ pre a s t, I pre s → step s a = .ok t → I (pre ++ [a]) t)
    {s t : σ} {l : List α} (hs : I [] s) (h : run step s l = .ok t) : I l t :=
  run_history_from hstep [] hs h

/-- The total rule with the inputs read so far in view. -/
theorem run_total_history {I : List α → σ → Prop} {l : List α} {s : σ}
    (hstep : ∀ pre a s, pre ++ [a] <+: l → I pre s → ∃ t, step s a = .ok t ∧ I (pre ++ [a]) t)
    (hs : I [] s) : ∃ t, run step s l = .ok t ∧ I l t := by
  induction l using List.reverseRecOn with
  | nil => exact ⟨s,rfl,hs⟩
  | append_singleton l a ih =>
    obtain ⟨u,hu,hI⟩ := ih fun pre b s hp => hstep pre b s (hp.trans (List.prefix_append l [a]))
    obtain ⟨t,ht,hIt⟩ := hstep l a u List.prefix_rfl hI
    exact ⟨t,run_snoc_ok.mpr ⟨u,hu,ht⟩,hIt⟩

/-- The states a run passes through, one after each iteration. -/
def states (step : σ → α → Except ε σ) : σ → List α → List σ
  | _,[] => []
  | s,a :: l =>
    match step s a with
    | .error _ => []
    | .ok t => t :: states step t l

theorem states_length {s t : σ} {l : List α} (h : run step s l = .ok t) :
    (states step s l).length = l.length := by
  induction l generalizing s with
  | nil => rfl
  | cons a l ih =>
    obtain ⟨u,hu,ht⟩ := bind_eq_ok.mp h
    simp [states, hu, ih ht]

theorem states_snoc {s u t : σ} {l : List α} {a : α} (h : run step s l = .ok u)
    (ha : step u a = .ok t) : states step s (l ++ [a]) = states step s l ++ [t] := by
  induction l generalizing s with
  | nil =>
    cases h
    simp [states, ha]
  | cons b l ih =>
    obtain ⟨v,hv,hu⟩ := bind_eq_ok.mp h
    simp [states, hv, ih hu]

end

end CLib
