import Cphf.Program

/-! The option loop of `main`, which keeps each result of `getopt_long` in a `char` before it
compares it with `-1`. -/
namespace Cphf

theorem OptionCode.value_range (code : OptionCode) : 0 ≤ code.value ∧ code.value < 2^7 := by
  have hp : OptionCode.proc.value = 112 := rfl
  have hf : OptionCode.file.value = 102 := rfl
  have he : OptionCode.error.value = 63 := rfl
  cases code <;> omega

theorem asChar_signed {v : ℤ} (h0 : -2^7 ≤ v) (h : v < 2^7) : asChar true v = v := by
  unfold asChar
  rw [if_pos rfl, Int.bmod_def]
  split <;> omega

theorem asChar_unsigned_ne (v : ℤ) : asChar false v ≠ -1 := by
  rw [asChar, if_neg (by decide)]
  omega

/-- Where `char` is signed, a result that is stored and compared is still itself. -/
theorem OptionCode.asChar_value (code : OptionCode) : asChar true code.value = code.value := by
  have hv := code.value_range
  exact asChar_signed (by omega) (by omega)

/-- Where `char` is signed, the loop ends after the last answer. -/
theorem optionLoop_signed {n : ℕ} {answers : List GetoptAnswer} (h : answers.length < n)
    (o : MainOptions) : optionLoop true n answers o =
      some (answers.foldl (fun o a => o.switch a.code.value a.optarg) o) := by
  induction answers generalizing n o with
  | nil =>
    cases n with
    | zero => exact absurd h (Nat.not_lt_zero _)
    | succ n => rfl
  | cons a answers ih =>
    cases n with
    | zero => exact absurd h (Nat.not_lt_zero _)
    | succ n =>
      have hv := a.code.value_range
      have hne : a.code.value ≠ -1 := by omega
      rw [optionLoop, a.code.asChar_value, if_pos hne, ih (Nat.lt_of_succ_lt_succ h)]
      rfl

/-- It does not end before. -/
theorem optionLoop_signed_eq_none {n : ℕ} {answers : List GetoptAnswer} (h : n ≤ answers.length)
    (o : MainOptions) : optionLoop true n answers o = none := by
  induction n generalizing answers o with
  | zero => rfl
  | succ n ih =>
    cases answers with
    | nil => exact absurd h (Nat.not_succ_le_zero _)
    | cons a answers =>
      have hv := a.code.value_range
      have hne : a.code.value ≠ -1 := by omega
      rw [optionLoop, a.code.asChar_value, if_pos hne]
      exact ih (Nat.le_of_succ_le_succ h) _

/-- Where `char` is unsigned, no result is `-1`. -/
theorem optionLoop_unsigned (n : ℕ) (answers : List GetoptAnswer) (o : MainOptions) :
    optionLoop false n answers o = none := by
  induction n generalizing answers o with
  | zero => rfl
  | succ n ih =>
    cases answers with
    | nil =>
      rw [optionLoop, if_pos (asChar_unsigned_ne _)]
      exact ih _ _
    | cons a answers =>
      rw [optionLoop, if_pos (asChar_unsigned_ne _)]
      exact ih _ _

/-- The loop runs one round for each answer: it has ended within a number of calls exactly when
one is left after the answers. -/
def RoundPerAnswer (charSigned : Bool) (answers : List GetoptAnswer) : Prop :=
  ∀ n o, (optionLoop charSigned n answers o).isSome ↔ answers.length < n

/-- Whatever the arguments, the loop runs a round for each answer exactly where `char` is signed. -/
theorem roundPerAnswer_iff (charSigned : Bool) (answers : List GetoptAnswer) :
    RoundPerAnswer charSigned answers ↔ charSigned = true := by
  cases charSigned with
  | false =>
    simp only [Bool.false_eq_true, iff_false]
    intro h
    have hend := (h (answers.length+1) MainOptions.init).mpr (Nat.lt_succ_self _)
    rw [optionLoop_unsigned] at hend
    cases hend
  | true =>
    simp only [iff_true]
    intro n o
    by_cases h : answers.length < n
    · simp [optionLoop_signed h, h]
    · simp [optionLoop_signed_eq_none (not_lt.mp h), h]

/-- On such a machine the program never gets past its options, not even without any. -/
theorem not_roundPerAnswer_unsigned :
    ¬ RoundPerAnswer false [] ∧ ∀ n, optionLoop false n [] MainOptions.init = none := by
  constructor
  · intro h
    have hend := (h 1 MainOptions.init).mpr Nat.one_pos
    rw [optionLoop_unsigned] at hend
    cases hend
  · exact fun n => optionLoop_unsigned n [] _

end Cphf
