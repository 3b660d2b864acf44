import Cphf.CLib.Integers

/-! C strings and their numerals: the C locale's character classes, decimal and
hexadecimal output, and the conversions behind `strtol`, `strtoul` and `atoi`. -/
namespace CLib

/-- The contents of a string or of a byte stream; a byte is a character. -/
abbrev Text := List Char

/-- `isspace` in the C locale. -/
def isspace (c : Char) : Bool :=
  c = ' ' || c = '\t' || c = '\n' || c = '\x0b' || c = '\x0c' || c = '\r'

/-- What a `char *` into these bytes denotes: everything before the first NUL. -/
def c_str (s : Text) : Text := s.takeWhile (· ≠ '\x00')

/-- A word: non-empty and free of whitespace. -/
def IsWord (s : Text) : Prop := s ≠ [] ∧ ∀ c ∈ s, isspace c = false

instance (s : Text) : Decidable (IsWord s) :=
  decidable_of_iff (s ≠ [] ∧ s.all (fun c => !isspace c) = true) (by simp [IsWord])

def skipSpace (s : Text) : Text := s.dropWhile isspace

def takeWord (s : Text) : Text := s.takeWhile (fun c => !isspace c)

def dropWord (s : Text) : Text := s.dropWhile (fun c => !isspace c)

@[simp] theorem skipSpace_nil : skipSpace [] = [] := rfl

theorem skipSpace_cons_of_not {c : Char} (h : isspace c = false) (s : Text) :
    skipSpace (c :: s) = c :: s := by simp [skipSpace, h]

theorem skipSpace_word {w : Text} (h : IsWord w) (s : Text) : skipSpace (w ++ s) = w ++ s := by
  obtain ⟨hne,hw⟩ := h
  cases w with
  | nil => contradiction
  | cons c w => exact skipSpace_cons_of_not (hw c (by simp)) _

/-- A run of blanks. -/
def Blanks (g : Text) : Prop := ∀ c ∈ g, isspace c = true

theorem skipSpace_append {g : Text} (h : Blanks g) (s : Text) : skipSpace (g ++ s) = skipSpace s :=
  List.dropWhile_append_of_pos h

theorem skipSpace_append_of_ne {t : Text} (h : skipSpace t ≠ []) (s : Text) :
    skipSpace (t ++ s) = skipSpace t ++ s := by
  unfold skipSpace at h ⊢
  rw [List.dropWhile_append, if_neg (by simpa using h)]

/-- A character that is no blank ends the blanks. -/
theorem skipSpace_append_cons (t : Text) {c : Char} (hc : isspace c = false) (s : Text) :
    skipSpace (t ++ c :: s) = skipSpace t ++ c :: s := by
  by_cases ht : skipSpace t = []
  · rw [skipSpace_append (List.dropWhile_eq_nil_iff.mp ht), skipSpace_cons_of_not hc, ht,
      List.nil_append]
  · exact skipSpace_append_of_ne ht _

@[simp] theorem skipSpace_skipSpace (s : Text) : skipSpace (skipSpace s) = skipSpace s :=
  List.dropWhile_idempotent isspace s

theorem skipSpace_blanks {g : Text} (h : Blanks g) : skipSpace g = [] :=
  List.dropWhile_eq_nil_iff.mpr h

/-- The stream ends or goes on with a blank. -/
def BlankOrEnd (s : Text) : Prop := ∀ c ∈ s.head?, isspace c = true

@[simp] theorem blankOrEnd_nil : BlankOrEnd [] := by simp [BlankOrEnd]

theorem blankOrEnd_cons {c : Char} (h : isspace c = true) (s : Text) : BlankOrEnd (c :: s) := by
  simpa [BlankOrEnd] using h

theorem blankOrEnd_of_blanks {g : Text} (h : Blanks g) : BlankOrEnd g :=
  fun c hc => h c (List.mem_of_mem_head? hc)

theorem skipSpace_length_le (s : Text) : (skipSpace s).length ≤ s.length :=
  (List.dropWhile_suffix _).length_le

theorem dropWord_length_le (s : Text) : (dropWord s).length ≤ s.length :=
  (List.dropWhile_suffix _).length_le

/-- A word is read off exactly when a blank or the end of the stream follows it. -/
theorem takeWord_append {w : Text} (h : ∀ c ∈ w, isspace c = false) {c : Char}
    (hc : isspace c = true) (s : Text) : takeWord (w ++ c :: s) = w := by
  unfold takeWord
  rw [List.takeWhile_append_of_pos (by simpa using h)]
  simp [hc]

theorem dropWord_append {w : Text} (h : ∀ c ∈ w, isspace c = false) {c : Char}
    (hc : isspace c = true) (s : Text) : dropWord (w ++ c :: s) = c :: s := by
  unfold dropWord
  rw [List.dropWhile_append_of_pos (by simpa using h)]
  simp [hc]

/-- A word that ends in a text is not changed by what follows the text. -/
theorem dropWord_append_of_ne {t : Text} (h : dropWord t ≠ []) (s : Text) :
    dropWord (t ++ s) = dropWord t ++ s := by
  unfold dropWord at h ⊢
  rw [List.dropWhile_append, if_neg (by simpa using h)]

theorem takeWord_all {w : Text} (h : ∀ c ∈ w, isspace c = false) : takeWord w = w := by
  simpa [takeWord] using h

theorem dropWord_all {w : Text} (h : ∀ c ∈ w, isspace c = false) : dropWord w = [] := by
  simpa [dropWord] using h

theorem takeWord_field {w : Text} (h : ∀ c ∈ w, isspace c = false) {s : Text} (hs : BlankOrEnd s) :
    takeWord (w ++ s) = w := by
  cases s with
  | nil => simpa using takeWord_all h
  | cons c s => exact takeWord_append h (by simpa [BlankOrEnd] using hs) s

theorem dropWord_field {w : Text} (h : ∀ c ∈ w, isspace c = false) {s : Text} (hs : BlankOrEnd s) :
    dropWord (w ++ s) = s := by
  cases s with
  | nil => simpa using dropWord_all h
  | cons c s => exact dropWord_append h (by simpa [BlankOrEnd] using hs) s

theorem c_str_of_no_nul {s : Text} (h : '\x00' ∉ s) : c_str s = s := by
  rw [c_str, List.takeWhile_eq_self_iff]
  intro c hc
  have hne : c ≠ '\x00' := fun he => h (he ▸ hc)
  simpa using hne

@[simp] theorem c_str_c_str (s : Text) : c_str (c_str s) = c_str s := List.takeWhile_idem

/-- Decimal output of an unsigned number. -/
def decimal (n : ℕ) : Text := Nat.toDigits 10 n

/-- Decimal output of a signed number. -/
def signedDecimal (v : ℤ) : Text := if v < 0 then '-' :: decimal v.natAbs else decimal v.natAbs

/-- `%02d`: at least two characters, filled with zeros after the sign. -/
def twoDigits (v : ℤ) : Text :=
  if v < 0 then signedDecimal v else List.replicate (2 - (decimal v.natAbs).length) '0' ++ decimal v.natAbs

/-- Hexadecimal output under `showbase`; zero is printed without a base. -/
def hexShowBase (n : ℕ) : Text := if n = 0 then ['0'] else '0' :: 'x' :: Nat.toDigits 16 n

theorem mem_toDigits {b n : ℕ} (hb : 1 < b) {c : Char} (h : c ∈ Nat.toDigits b n) :
    ∃ d < b, c = Nat.digitChar d := by
  induction n using Nat.strong_induction_on with
  | _ n ih =>
    rw [Nat.toDigits_eq_if hb] at h
    split at h
    · exact ⟨n,‹_›,List.mem_singleton.mp h⟩
    · cases List.mem_append.mp h with
      | inl h => exact ih _ (Nat.div_lt_self (by omega) hb) h
      | inr h => exact ⟨n % b,Nat.mod_lt _ (by omega),List.mem_singleton.mp h⟩

/-- The value of a run of decimal digits. -/
def digitsValue (ds : Text) : ℕ := Nat.ofDigitChars 10 ds 0

theorem decimal_ne_nil (n : ℕ) : decimal n ≠ [] := Nat.toDigits_ne_nil

theorem isDigit_of_mem_decimal {n : ℕ} {c : Char} (h : c ∈ decimal n) : c.isDigit = true :=
  Nat.isDigit_of_mem_toDigits (by decide) (by decide) h

@[simp] theorem digitsValue_decimal (n : ℕ) : digitsValue (decimal n) = n :=
  Nat.ofDigitChars_ten_toDigits

theorem decimal_injective : Function.Injective decimal := by
  intro a b h
  rw [← digitsValue_decimal a, h, digitsValue_decimal]

/-- A text is cut in one way at the first of a character. -/
theorem cut_inj {c : Char} {u u' s s' : Text} (hu : c ∉ u) (hu' : c ∉ u')
    (h : u ++ c :: s = u' ++ c :: s') : u = u' ∧ s = s' := by
  induction u generalizing u' with
  | nil =>
    cases u' with
    | nil => exact ⟨rfl,(List.cons.inj h).2⟩
    | cons b u' => exact absurd (List.mem_cons.mpr (.inl (List.cons.inj h).1)) hu'
  | cons a u ih =>
    cases u' with
    | nil => exact absurd (List.mem_cons.mpr (.inl (List.cons.inj h).1.symm)) hu
    | cons b u' =>
      obtain ⟨rfl,ht⟩ := List.cons.inj h
      obtain ⟨rfl,hs⟩ := ih (fun hm => hu (List.mem_cons_of_mem _ hm))
        (fun hm => hu' (List.mem_cons_of_mem _ hm)) ht
      exact ⟨rfl,hs⟩

theorem isspace_of_isDigit {c : Char} (h : c.isDigit = true) : isspace c = false := by
  cases hs : isspace c with
  | false => rfl
  | true =>
    simp only [isspace, Bool.or_eq_true, decide_eq_true_eq] at hs
    rcases hs with ((((rfl | rfl) | rfl) | rfl) | rfl) | rfl <;> exact absurd h (by decide)

theorem decimal_isWord (n : ℕ) : IsWord (decimal n) :=
  ⟨decimal_ne_nil n, fun _ h => isspace_of_isDigit (isDigit_of_mem_decimal h)⟩

/-- Sign, digits and remainder of the longest numeral at the front of a string. -/
def splitNumeral (s : Text) : Bool × Text × Text :=
  match s with
  | '-' :: r => (true, r.takeWhile Char.isDigit, r.dropWhile Char.isDigit)
  | '+' :: r => (false, r.takeWhile Char.isDigit, r.dropWhile Char.isDigit)
  | r => (false, r.takeWhile Char.isDigit, r.dropWhile Char.isDigit)

theorem splitNumeral_suffix (s : Text) : (splitNumeral s).2.2 <:+ s := by
  unfold splitNumeral
  split
  · exact (List.dropWhile_suffix _).trans (List.suffix_cons _ _)
  · exact (List.dropWhile_suffix _).trans (List.suffix_cons _ _)
  · exact List.dropWhile_suffix _

theorem splitNumeral_of_isDigit {c : Char} (h : c.isDigit = true) (s : Text) :
    splitNumeral (c :: s) =
      (false, (c :: s).takeWhile Char.isDigit, (c :: s).dropWhile Char.isDigit) := by
  unfold splitNumeral
  split
  · rename_i he
    rw [List.cons.injEq] at he
    rw [he.1] at h
    exact absurd h (by decide)
  · rename_i he
    rw [List.cons.injEq] at he
    rw [he.1] at h
    exact absurd h (by decide)
  · rfl

/-- A decimal numeral followed by a non-digit is split off whole. -/
theorem splitNumeral_decimal (n : ℕ) {s : Text} (hs : ∀ c ∈ s.head?, c.isDigit = false) :
    splitNumeral (decimal n ++ s) = (false, decimal n, s) := by
  have hd : ∀ c ∈ decimal n, c.isDigit = true := fun c => isDigit_of_mem_decimal
  have ht : s.takeWhile Char.isDigit = [] ∧ s.dropWhile Char.isDigit = s := by
    cases s with
    | nil => simp
    | cons c s => simp [hs c (by simp)]
  have he : (decimal n ++ s).takeWhile Char.isDigit = decimal n ∧
      (decimal n ++ s).dropWhile Char.isDigit = s := by
    rw [List.takeWhile_append_of_pos hd, List.dropWhile_append_of_pos hd, ht.1, ht.2]
    simp
  cases hc : decimal n with
  | nil => exact absurd hc (decimal_ne_nil n)
  | cons c r =>
    rw [List.cons_append, splitNumeral_of_isDigit (hd c (by simp [hc])), ← List.cons_append, ← hc,
      he.1, he.2]

/-- So is a signed one. -/
theorem splitNumeral_signedDecimal (v : ℤ) {s : Text} (hs : ∀ c ∈ s.head?, c.isDigit = false) :
    splitNumeral (signedDecimal v ++ s) = (decide (v < 0), decimal v.natAbs, s) := by
  have hplain := splitNumeral_decimal v.natAbs hs
  unfold signedDecimal
  split_ifs with hv
  · have hd : ∀ c ∈ decimal v.natAbs, c.isDigit = true := fun c => isDigit_of_mem_decimal
    cases hc : decimal v.natAbs with
    | nil => exact absurd hc (decimal_ne_nil _)
    | cons c r =>
      rw [hc, List.cons_append, splitNumeral_of_isDigit (hd c (by simp [hc]))] at hplain
      simp only [Prod.mk.injEq, true_and] at hplain
      simp only [List.cons_append, splitNumeral, hplain, hv, decide_true]
  · simpa [hv] using hplain

theorem signedDecimal_isWord (v : ℤ) : IsWord (signedDecimal v) := by
  have hw := decimal_isWord v.natAbs
  unfold signedDecimal
  split
  · refine ⟨by simp,fun c hc => ?_⟩
    rcases List.mem_cons.mp hc with rfl | hc
    · rfl
    · exact hw.2 c hc
  · exact hw

/-- A signed numeral's value as `strtol` returns it, clamped to a 64-bit long. -/
def strtol (neg : Bool) (n : ℕ) : ℤ :=
  max (-2^63) (min (if neg then -(n : ℤ) else n) (2^63-1))

/-- A numeral's value as `strtoul` returns it: clamped above, negated modulo `2^64`. -/
def strtoul (neg : Bool) (n : ℕ) : UInt64 :=
  if 2^64 ≤ n then UInt64.ofNat (2^64-1) else if neg then -UInt64.ofNat n else UInt64.ofNat n

/-- `(int) strtol(s, NULL, 10)`, which is what `atoi` is specified to be. -/
def atoi (s : Text) : ℤ :=
  let (neg, ds, _) := splitNumeral (skipSpace s)
  asInt (strtol neg (digitsValue ds))

theorem atoi_range (s : Text) : -2^31 ≤ atoi s ∧ atoi s < 2^31 := asInt_range _

theorem atoi_decimal {n : ℕ} (h : n < 2^31) : atoi (decimal n) = n := by
  have hs : splitNumeral (decimal n) = (false, decimal n, []) := by
    simpa using splitNumeral_decimal n (s := []) (by simp)
  have hk : skipSpace (decimal n) = decimal n := by
    simpa using skipSpace_word (decimal_isWord n) []
  simp only [atoi, hk, hs, digitsValue_decimal, strtol, Bool.false_eq_true, if_false]
  rw [asInt_of_lt] <;> omega

end CLib
