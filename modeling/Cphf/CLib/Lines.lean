import Cphf.CLib.Text

/-! Lists cut at a delimiter, as `getline` cuts a stream, and texts that fit on one line. -/
namespace CLib
variable {α : Type} [DecidableEq α]

/-- The pieces a `getline` loop yields; one after the last delimiter counts unless empty. -/
def getlines (delim : α) : List α → List (List α)
  | [] => []
  | c :: s =>
    if c = delim then [] :: getlines delim s
    else
      match getlines delim s with
      | [] => [[c]]
      | l :: ls => (c :: l) :: ls

theorem getlines_line {delim : α} {l : List α} (h : delim ∉ l) (s : List α) :
    getlines delim (l ++ delim :: s) = l :: getlines delim s := by
  induction l with
  | nil => simp [getlines]
  | cons c l ih =>
    rw [List.mem_cons, not_or] at h
    rw [List.cons_append, getlines, if_neg (Ne.symm h.1), ih h.2]

/-- Pieces free of the delimiter, each ended by one, are cut apart again. -/
theorem getlines_flatMap {delim : α} {ls : List (List α)} (h : ∀ l ∈ ls, delim ∉ l) :
    getlines delim (ls.flatMap (· ++ [delim])) = ls := by
  induction ls with
  | nil => rfl
  | cons l ls ih =>
    rw [List.flatMap_cons, List.append_assoc, List.singleton_append,
      getlines_line (h l (by simp)), ih fun l hl => h l (by simp [hl])]

theorem not_mem_of_mem_getlines {delim : α} {s l : List α} (h : l ∈ getlines delim s) :
    delim ∉ l := by
  induction s generalizing l with
  | nil => cases h
  | cons c s ih =>
    unfold getlines at h
    split_ifs at h with hc
    · rcases List.mem_cons.mp h with rfl | h
      · simp
      · exact ih h
    · split at h
      · rw [List.mem_singleton.mp h]
        simpa using Ne.symm hc
      · rename_i l' ls he
        rw [he] at ih
        rcases List.mem_cons.mp h with rfl | h
        · simpa [Ne.symm hc] using ih (l := l') (by simp)
        · exact ih (by simp [h])

theorem mem_of_mem_getlines {delim c : α} {s l : List α} (h : l ∈ getlines delim s) (hc : c ∈ l) :
    c ∈ s := by
  induction s generalizing l with
  | nil => cases h
  | cons d s ih =>
    unfold getlines at h
    split_ifs at h with hd
    · rcases List.mem_cons.mp h with rfl | h
      · cases hc
      · exact List.mem_cons_of_mem _ (ih h hc)
    · split at h
      · rw [List.mem_singleton.mp h] at hc
        simp [List.mem_singleton.mp hc]
      · rename_i l' ls he
        rw [he] at ih
        rcases List.mem_cons.mp h with rfl | h
        · rcases List.mem_cons.mp hc with rfl | hc
          · simp
          · exact List.mem_cons_of_mem _ (ih (l := l') (by simp) hc)
        · exact List.mem_cons_of_mem _ (ih (by simp [h]) hc)

/-- No newline, and no NUL to end it early. -/
def oneLine (s : Text) : Bool := s.all fun c => c ≠ '\n' && c ≠ '\x00'

@[simp] theorem oneLine_nil : oneLine [] = true := rfl

@[simp] theorem oneLine_cons (c : Char) (s : Text) :
    oneLine (c :: s) = true ↔ (c ≠ '\n' ∧ c ≠ '\x00') ∧ oneLine s = true := by simp [oneLine]

@[simp] theorem oneLine_append (s t : Text) :
    oneLine (s ++ t) = true ↔ oneLine s = true ∧ oneLine t = true := by
  rw [oneLine, List.all_append, Bool.and_eq_true]
  rfl

theorem oneLine_iff {s : Text} : oneLine s = true ↔ '\n' ∉ s ∧ '\x00' ∉ s := by
  rw [oneLine, List.all_eq_true]
  constructor
  · intro h
    exact ⟨fun hm => by simpa using h _ hm,fun hm => by simpa using h _ hm⟩
  · rintro ⟨hn,h0⟩ c hc
    have h1 : c ≠ '\n' := fun h => hn (h ▸ hc)
    have h2 : c ≠ '\x00' := fun h => h0 (h ▸ hc)
    simp [h1, h2]

theorem oneLine_of_subset {s t : Text} (h : ∀ c ∈ s, c ∈ t) (ht : oneLine t = true) :
    oneLine s = true := by
  rw [oneLine_iff] at *
  exact ⟨fun hm => ht.1 (h _ hm),fun hm => ht.2 (h _ hm)⟩

/-- Cut at the first NUL, a text without newlines is one line. -/
theorem oneLine_c_str {s : Text} (h : '\n' ∉ s) : oneLine (c_str s) = true := by
  rw [oneLine_iff]
  refine ⟨fun hm => h (List.takeWhile_subset _ hm),fun hm => ?_⟩
  have := List.mem_takeWhile_imp hm
  simp at this

theorem oneLine_of_isDigit {s : Text} (h : ∀ c ∈ s, c.isDigit = true) : oneLine s = true := by
  rw [oneLine_iff]
  exact ⟨fun hm => absurd (h _ hm) (by decide),fun hm => absurd (h _ hm) (by decide)⟩

@[simp] theorem oneLine_decimal (n : ℕ) : oneLine (decimal n) = true :=
  oneLine_of_isDigit fun _ => isDigit_of_mem_decimal

@[simp] theorem oneLine_signedDecimal (v : ℤ) : oneLine (signedDecimal v) = true := by
  unfold signedDecimal
  split <;> simp

@[simp] theorem oneLine_twoDigits (v : ℤ) : oneLine (twoDigits v) = true := by
  unfold twoDigits
  split
  · simp
  · rw [oneLine_append]
    exact ⟨oneLine_of_isDigit fun c hc => by rw [List.eq_of_mem_replicate hc]; rfl,by simp⟩

theorem oneLine_hexDigits (n : ℕ) : oneLine (Nat.toDigits 16 n) = true := by
  have hdigit : ∀ d < 16, Nat.digitChar d ≠ '\n' ∧ Nat.digitChar d ≠ '\x00' := by decide
  have hne : ∀ c ∈ Nat.toDigits 16 n, c ≠ '\n' ∧ c ≠ '\x00' := by
    intro c hc
    obtain ⟨d,hd,rfl⟩ := mem_toDigits (by decide) hc
    exact hdigit d hd
  exact oneLine_iff.mpr ⟨fun h => (hne _ h).1 rfl,fun h => (hne _ h).2 rfl⟩

@[simp] theorem oneLine_hexShowBase (n : ℕ) : oneLine (hexShowBase n) = true := by
  unfold hexShowBase
  split
  · rfl
  · simp [oneLine_hexDigits]

end CLib
