import Cphf.CLib.Text

/-! Extraction from an input stream: the formatted `>>` operators, which skip blanks first
and fail when nothing of their kind follows. -/
namespace CLib

/-- A value and the unread stream, or the stream's fail bit. -/
abbrev Extraction (α : Type) := Option (α × Text)

/-- `>>` into a string. -/
def extractWord (s : Text) : Extraction Text :=
  match skipSpace s with
  | [] => none
  | c :: r => some (takeWord (c :: r),dropWord (c :: r))

/-- `>>` into a `char`. -/
def extractChar (s : Text) : Extraction Char :=
  match skipSpace s with
  | [] => none
  | c :: r => some (c,r)

/-- `>>` into an `unsigned long`; a negated numeral wraps around. -/
def extractUnsigned (s : Text) : Extraction ℕ :=
  let (neg,ds,rest) := splitNumeral (skipSpace s)
  if ds = [] ∨ 2^64 ≤ digitsValue ds then none
  else some (if neg then (2^64 - digitsValue ds) % 2^64 else digitsValue ds,rest)

/-- `>>` into a `long`. -/
def extractSigned (s : Text) : Extraction ℤ :=
  let (neg,ds,rest) := splitNumeral (skipSpace s)
  let v : ℤ := if neg then -digitsValue ds else digitsValue ds
  if ds = [] ∨ v < -2^63 ∨ 2^63 ≤ v then none else some (v,rest)

/-- What a word was read from goes on after it. -/
theorem extractWord_suffix {s w rest : Text} (h : extractWord s = some (w,rest)) :
    IsWord w ∧ (∀ c ∈ w, c ∈ s) ∧ rest <:+ s ∧ rest.length < s.length := by
  have hs : skipSpace s <:+ s := List.dropWhile_suffix _
  unfold extractWord at h
  split at h
  · cases h
  · rename_i c r hc
    simp only [Option.some.injEq, Prod.mk.injEq] at h
    obtain ⟨rfl,rfl⟩ := h
    rw [hc] at hs
    have hv : isspace c = false := by
      have hd := List.head?_dropWhile_not isspace s
      rw [← skipSpace, hc] at hd
      simpa using hd
    have ht : takeWord (c :: r) = c :: takeWord r := by simp [takeWord, hv]
    have hd : dropWord (c :: r) = dropWord r := by simp [dropWord, hv]
    refine ⟨⟨by simp [ht],fun d hm => ?_⟩,fun d hm => hs.subset ((List.takeWhile_prefix _).subset hm),
      (List.dropWhile_suffix _).trans hs,?_⟩
    · simpa using List.mem_takeWhile_imp hm
    · have hle := hs.length_le
      have hlt := dropWord_length_le r
      rw [List.length_cons] at hle
      rw [hd]
      omega

theorem extractChar_suffix {s rest : Text} {c : Char} (h : extractChar s = some (c,rest)) :
    rest <:+ s := by
  have hs : skipSpace s <:+ s := List.dropWhile_suffix _
  unfold extractChar at h
  split at h
  · cases h
  · rename_i d r hd
    cases h
    rw [hd] at hs
    exact (List.suffix_cons _ _).trans hs

theorem extractUnsigned_suffix {s rest : Text} {n : ℕ} (h : extractUnsigned s = some (n,rest)) :
    rest <:+ s := by
  have hs : skipSpace s <:+ s := List.dropWhile_suffix _
  have hr := splitNumeral_suffix (skipSpace s)
  unfold extractUnsigned at h
  dsimp only at h
  split at h
  · cases h
  · cases h
    exact hr.trans hs

section
variable {g : Text} (hg : Blanks g)
include hg

/-- Blanks in front are skipped. -/
theorem extractWord_append (s : Text) : extractWord (g ++ s) = extractWord s := by
  unfold extractWord
  rw [skipSpace_append hg]

theorem extractWord_blanks : extractWord g = none := by
  unfold extractWord
  rw [skipSpace_blanks hg]

theorem extractChar_blanks : extractChar g = none := by
  unfold extractChar
  rw [skipSpace_blanks hg]

theorem extractUnsigned_blanks : extractUnsigned g = none := by
  unfold extractUnsigned
  rw [skipSpace_blanks hg]
  rfl

theorem extractWord_field {w s : Text} (hw : IsWord w) (hs : BlankOrEnd s) :
    extractWord (g ++ (w ++ s)) = some (w,s) := by
  rw [extractWord_append hg, extractWord, skipSpace_word hw]
  cases w with
  | nil => exact absurd rfl hw.1
  | cons c w =>
    change some (takeWord ((c :: w) ++ s),dropWord ((c :: w) ++ s)) = _
    rw [takeWord_field hw.2 hs, dropWord_field hw.2 hs]

theorem extractChar_field {c : Char} (hc : isspace c = false) (s : Text) :
    extractChar (g ++ c :: s) = some (c,s) := by
  rw [extractChar, skipSpace_append hg, skipSpace_cons_of_not hc]

theorem extractUnsigned_field {n : ℕ} (hn : n < 2^64) {s : Text}
    (hs : ∀ c ∈ s.head?, c.isDigit = false) :
    extractUnsigned (g ++ (decimal n ++ s)) = some (n,s) := by
  rw [extractUnsigned, skipSpace_append hg, skipSpace_word (decimal_isWord n),
    splitNumeral_decimal n hs]
  dsimp only
  rw [digitsValue_decimal, if_neg (by simp [decimal_ne_nil]; omega)]
  rfl

theorem extractSigned_field {n : ℕ} (hn : n < 2^63) {s : Text}
    (hs : ∀ c ∈ s.head?, c.isDigit = false) :
    extractSigned (g ++ (decimal n ++ s)) = some ((n : ℤ),s) := by
  rw [extractSigned, skipSpace_append hg, skipSpace_word (decimal_isWord n),
    splitNumeral_decimal n hs]
  dsimp only
  have hno : ¬ (decimal n = [] ∨ (n : ℤ) < -2^63 ∨ (2^63 : ℤ) ≤ n) := by
    rw [not_or]
    exact ⟨decimal_ne_nil n,by omega⟩
  rw [digitsValue_decimal, if_neg Bool.false_ne_true, if_neg hno]

end

/-- The cut forms of a concatenation: a cut of its front, or its front and a cut of the rest. -/
theorem prefix_append_iff {α : Type} {a b cut : List α} :
    cut <+: a ++ b ↔ cut <+: a ∨ ∃ c, c <+: b ∧ cut = a ++ c := by
  constructor
  · rintro ⟨t,ht⟩
    rcases List.append_eq_append_iff.mp ht with ⟨d,hd,_⟩ | ⟨c,hc,hb⟩
    · exact .inl ⟨d,hd.symm⟩
    · exact .inr ⟨c,⟨t,hb.symm⟩,hc⟩
  · rintro (h | ⟨c,h,rfl⟩)
    · exact h.trans (List.prefix_append _ _)
    · exact (List.prefix_append_right_inj a).mpr h

section
variable {g : Text} (hg : Blanks g) {cut rest : Text}
include hg

/-- A stream that is cut off before or in a word, or behind it. -/
theorem extractWord_cut {w : Text} (hw : IsWord w) (hrest : BlankOrEnd rest)
    (hcut : cut <+: g ++ (w ++ rest)) :
    (cut <+: g ∧ extractWord cut = none) ∨
    (∃ w', w' ≠ [] ∧ w' <+: w ∧ cut = g ++ w' ∧ extractWord cut = some (w',[])) ∨
    ∃ c, c <+: rest ∧ cut = g ++ (w ++ c) ∧ extractWord cut = some (w,c) := by
  rcases prefix_append_iff.mp hcut with h | ⟨c,hc,rfl⟩
  · exact .inl ⟨h,extractWord_blanks fun d hd => hg d (h.subset hd)⟩
  · rcases prefix_append_iff.mp hc with h | ⟨d,h,rfl⟩
    · by_cases hnil : c = []
      · subst hnil
        exact .inl ⟨by simp,by simpa using extractWord_blanks hg⟩
      · have hword : IsWord c := ⟨hnil,fun d hd => hw.2 d (h.subset hd)⟩
        exact .inr (.inl ⟨c,hnil,h,rfl,by simpa using extractWord_field hg hword blankOrEnd_nil⟩)
    · refine .inr (.inr ⟨d,h,rfl,extractWord_field hg hw fun e he => ?_⟩)
      obtain ⟨t,rfl⟩ := h
      cases d with
      | nil => cases he
      | cons f d => exact hrest e he

theorem extractChar_cut {c : Char} (hc : isspace c = false) (hcut : cut <+: g ++ c :: rest) :
    extractChar cut = none ∨ ∃ r, r <+: rest ∧ extractChar cut = some (c,r) := by
  rcases prefix_append_iff.mp hcut with h | ⟨d,hd,rfl⟩
  · exact .inl (extractChar_blanks fun d hd => hg d (h.subset hd))
  · rcases List.prefix_cons_iff.mp hd with rfl | ⟨r,rfl,hr⟩
    · exact .inl (by simpa using extractChar_blanks hg)
    · exact .inr ⟨r,hr,extractChar_field hg hc r⟩

/-- A numeral that is cut off is read as another one, to the end of the stream. -/
theorem extractUnsigned_cut {n : ℕ} (hn : n < 2^64) (hrest : ∀ c ∈ rest.head?, c.isDigit = false)
    (hcut : cut <+: g ++ (decimal n ++ rest)) :
    extractUnsigned cut = none ∨ (∃ v, extractUnsigned cut = some (v,[])) ∨
    ∃ c, c <+: rest ∧ extractUnsigned cut = some (n,c) := by
  rcases prefix_append_iff.mp hcut with h | ⟨c,hc,rfl⟩
  · exact .inl (extractUnsigned_blanks fun d hd => hg d (h.subset hd))
  · rcases prefix_append_iff.mp hc with h | ⟨d,h,rfl⟩
    · cases c with
      | nil => exact .inl (by simpa using extractUnsigned_blanks hg)
      | cons d c =>
        have hdigit : ∀ e ∈ d :: c, e.isDigit = true := fun e he =>
          isDigit_of_mem_decimal (h.subset he)
        have hsplit : splitNumeral (d :: c) = (false,d :: c,[]) := by
          rw [splitNumeral_of_isDigit (hdigit d (by simp)), List.takeWhile_eq_self_iff.mpr hdigit,
            List.dropWhile_eq_nil_iff.mpr hdigit]
        unfold extractUnsigned
        rw [skipSpace_append hg, skipSpace_cons_of_not (isspace_of_isDigit (hdigit d (by simp))),
          hsplit]
        dsimp only
        split
        · exact .inl rfl
        · exact .inr (.inl ⟨_,rfl⟩)
    · refine .inr (.inr ⟨d,h,extractUnsigned_field hg hn fun e he => ?_⟩)
      obtain ⟨t,rfl⟩ := h
      cases d with
      | nil => cases he
      | cons f d => exact hrest e he

end

end CLib
