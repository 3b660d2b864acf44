import Cphf.CLib.Fields

/-! Streams that only numeric conversions read: the numerals and the lone signs they come upon,
up to a character that none of them passes. -/
namespace CLib

/-- A character that no numeric conversion consumes is next. -/
def Stuck (s : Text) : Prop :=
  skipSpace s ≠ [] ∧ (splitNumeral (skipSpace s)).2 = ([],skipSpace s)

/-- The value of a sign and digits. -/
def numeralValue (neg : Bool) (ds : Text) : ℤ := if neg then -(digitsValue ds : ℤ) else digitsValue ds

/-- What numeric conversions come upon, one after the other: the value of a numeral, or a sign
without digits, which is consumed all the same. -/
inductive Lexes : Text → List (Option ℤ) → Prop
  | stuck {s} (h : Stuck s) : Lexes s []
  | sign {s neg rest xs} (h : skipSpace s ≠ []) (hsplit : splitNumeral (skipSpace s) = (neg,[],rest))
      (tail : Lexes rest xs) : Lexes s (none :: xs)
  | numeral {s neg ds rest xs} (h : ds ≠ [])
      (hsplit : splitNumeral (skipSpace s) = (neg,ds,rest)) (tail : Lexes rest xs) :
      Lexes s (some (numeralValue neg ds) :: xs)

theorem Lexes.skipSpace {s : Text} {xs : List (Option ℤ)} (h : Lexes s xs) :
    Lexes (skipSpace s) xs := by
  cases h with
  | stuck h => exact .stuck (by simpa [Stuck] using h)
  | sign h hsplit tail => exact .sign (by simpa using h) (by simpa using hsplit) tail
  | numeral h hsplit tail => exact .numeral h (by simpa using hsplit) tail

/-- A numeric conversion takes its item from the value of the numeral. -/
theorem numeralItem_eq (k : Conversion) (neg : Bool) (ds : Text) :
    numeralItem k neg (digitsValue ds) = numeralOf k (numeralValue neg ds) := by
  cases neg with
  | false => rw [numeralValue, if_neg (by decide), numeralOf_ofNat]
  | true =>
    rw [numeralValue, if_pos rfl]
    rcases Nat.eq_zero_or_pos (digitsValue ds) with h | h
    · rw [h]
      cases k <;> rfl
    · rw [numeralOf, Int.natAbs_neg, Int.natAbs_natCast, decide_eq_true (by omega)]

section
variable {k : Conversion} (hk : ∀ t, convert k t = convertNumeral k t) {s : Text}
include hk

theorem Stuck.convert (h : Stuck s) : convert k s = (.error .matching,skipSpace s) := by
  obtain ⟨hne,hsplit⟩ := h
  obtain ⟨c,r,hs⟩ := List.exists_cons_of_ne_nil hne
  rw [hs] at hsplit
  rw [hk, convertNumeral, hs]
  simp [hsplit]

theorem Lexes.convert_sign {xs : List (Option ℤ)} (h : Lexes s (none :: xs)) :
    ∃ rest, CLib.convert k s = (.error .matching,rest) ∧ Lexes rest xs := by
  cases h with
  | @sign _ neg rest _ h hsplit tail =>
    refine ⟨rest,?_,tail⟩
    obtain ⟨c,r,hs⟩ := List.exists_cons_of_ne_nil h
    rw [hs] at hsplit
    rw [hk, convertNumeral, hs]
    simp [hsplit]

theorem Lexes.convert_numeral {v : ℤ} {xs : List (Option ℤ)} (h : Lexes s (some v :: xs)) :
    ∃ rest, CLib.convert k s = (.ok (numeralOf k v),rest) ∧ Lexes rest xs := by
  cases h with
  | @numeral _ neg ds rest _ h hsplit tail =>
    refine ⟨rest,?_,tail⟩
    cases hs : CLib.skipSpace s with
    | nil =>
      rw [hs] at hsplit
      cases hsplit
      contradiction
    | cons c r =>
      rw [hs] at hsplit
      rw [hk, convertNumeral, hs]
      simp [hsplit, h, numeralItem_eq]

end

/-- The numerals and lone signs of a text; `fuel` bounds their number. -/
def lexemes : ℕ → Text → List (Option ℤ)
  | 0,_ => []
  | fuel+1,s =>
    let (neg,ds,rest) := splitNumeral (skipSpace s)
    if ds ≠ [] then some (numeralValue neg ds) :: lexemes fuel rest
    else if rest = skipSpace s then [] else none :: lexemes fuel rest

lemma lexemes_succ (fuel : ℕ) (s : Text) : lexemes (fuel+1) s =
    if (splitNumeral (skipSpace s)).2.1 ≠ [] then
      some (numeralValue (splitNumeral (skipSpace s)).1 (splitNumeral (skipSpace s)).2.1) ::
        lexemes fuel (splitNumeral (skipSpace s)).2.2
    else if (splitNumeral (skipSpace s)).2.2 = skipSpace s then []
    else none :: lexemes fuel (splitNumeral (skipSpace s)).2.2 := rfl

lemma splitNumeral_cons_of_ne {c : Char} (hm : c ≠ '-') (hp : c ≠ '+') (s : Text) :
    splitNumeral (c :: s) =
      (false,(c :: s).takeWhile Char.isDigit,(c :: s).dropWhile Char.isDigit) := by
  unfold splitNumeral
  split
  · rename_i he
    exact absurd (List.cons.inj he).1 hm
  · rename_i he
    exact absurd (List.cons.inj he).1 hp
  · rfl

lemma span_append {p : Char → Bool} {u s : Text} (hs : ∀ c ∈ s.head?, p c = false) :
    (u ++ s).takeWhile p = u.takeWhile p ∧ (u ++ s).dropWhile p = u.dropWhile p ++ s := by
  induction u with
  | nil =>
    cases s with
    | nil => simp
    | cons c s => simp [hs c (by simp)]
  | cons c u ih =>
    cases hc : p c <;> simp [hc, ih.1, ih.2]

/-- What follows a text does not change the numeral at its front. -/
theorem splitNumeral_append {u s : Text} (hu : u ≠ []) (hs : ∀ c ∈ s.head?, c.isDigit = false) :
    splitNumeral (u ++ s) =
      ((splitNumeral u).1,(splitNumeral u).2.1,(splitNumeral u).2.2 ++ s) := by
  cases u with
  | nil => contradiction
  | cons c u =>
    by_cases hm : c = '-'
    · subst hm
      simp [splitNumeral, span_append hs]
    · by_cases hp : c = '+'
      · subst hp
        simp [splitNumeral, span_append hs]
      · rw [List.cons_append, splitNumeral_cons_of_ne hm hp, splitNumeral_cons_of_ne hm hp,
          ← List.cons_append, (span_append hs).1, (span_append hs).2]

/-- Digits and a remainder that is not the whole are consumed. -/
lemma splitNumeral_length_le (s : Text) :
    (splitNumeral s).2.1.length + (splitNumeral s).2.2.length ≤ s.length := by
  have hspan (r : Text) :
      (r.takeWhile Char.isDigit).length + (r.dropWhile Char.isDigit).length = r.length := by
    rw [← List.length_append, List.takeWhile_append_dropWhile]
  unfold splitNumeral
  split <;> simp only [hspan, List.length_cons] <;> omega

lemma splitNumeral_length_lt {s : Text}
    (h : (splitNumeral s).2.1 ≠ [] ∨ (splitNumeral s).2.2 ≠ s) :
    (splitNumeral s).2.2.length < s.length := by
  have hle := splitNumeral_length_le s
  rcases h with h | h
  · have := List.length_pos_of_ne_nil h
    omega
  · exact lt_of_le_of_ne (splitNumeral_suffix s).length_le
      fun he => h ((splitNumeral_suffix s).eq_of_length he)

theorem lexemes_length_le (fuel : ℕ) (s : Text) : (lexemes fuel s).length ≤ s.length := by
  induction fuel generalizing s with
  | zero => exact Nat.zero_le _
  | succ fuel ih =>
    have hskip := skipSpace_length_le s
    have htail := ih (splitNumeral (skipSpace s)).2.2
    rw [lexemes_succ]
    split_ifs with hd he
    · have hlt := splitNumeral_length_lt (.inl hd)
      rw [List.length_cons]
      omega
    · exact Nat.zero_le _
    · have hlt := splitNumeral_length_lt (.inr he)
      rw [List.length_cons]
      omega

/-- Conversions that cannot pass what follows a text come upon its numerals and lone signs. -/
theorem lexes_lexemes {t s : Text} (hs : BlankOrEnd s) (hstuck : Stuck s) {fuel : ℕ}
    (h : t.length ≤ fuel) : Lexes (t ++ s) (lexemes fuel t) := by
  induction fuel generalizing t with
  | zero =>
    rw [List.length_eq_zero_iff.mp (Nat.le_zero.mp h)]
    exact .stuck hstuck
  | succ fuel ih =>
    have hskip := skipSpace_length_le t
    by_cases ht : skipSpace t = []
    · have hb : Blanks t := List.dropWhile_eq_nil_iff.mp ht
      have hl : lexemes (fuel+1) t = [] := by simp [lexemes, ht, splitNumeral]
      rw [hl]
      exact .stuck (by rwa [Stuck, skipSpace_append hb])
    · have hts : skipSpace (t ++ s) = skipSpace t ++ s := skipSpace_append_of_ne ht s
      have hsplit := splitNumeral_append ht (isDigit_of_blankOrEnd hs)
      rw [lexemes_succ]
      split_ifs with hd he
      · have hlt := splitNumeral_length_lt (.inl hd)
        exact .numeral hd (by rw [hts, hsplit]) (ih (by omega))
      · refine .stuck ⟨by simp [hts, ht],?_⟩
        rw [hts, hsplit, he, not_ne_iff.mp hd]
      · have hlt := splitNumeral_length_lt (.inr he)
        exact .sign (by simp [hts, ht]) (by rw [hts, hsplit, not_ne_iff.mp hd]) (ih (by omega))

end CLib
