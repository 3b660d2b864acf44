import Cphf.CLib.Scanf

/-! Formats whose conversions are separated by single blanks, on lines of fields separated
by single blanks: every conversion reads the field at its place. -/
namespace CLib

/-- A field that a conversion reads whole, as this item. -/
structure Reads (k : Conversion) (t : Text) (x : Item) : Prop where
  isWord : IsWord t
  convert : ∀ s, BlankOrEnd s → CLib.convert k (t ++ s) = (.ok x,s)

theorem reads_word {w : Text} (h : IsWord w) : Reads .word w (.word w) where
  isWord := h
  convert s hs := by
    cases s with
    | nil => simpa using convert_word_end h
    | cons c s => exact convert_word_blank h (by simpa [BlankOrEnd] using hs) s

theorem reads_char {c : Char} (h : isspace c = false) : Reads .char [c] (.char c) where
  isWord := ⟨by simp,by simpa using h⟩
  convert s _ := by rw [List.singleton_append, convert_char_cons]

lemma isDigit_of_blankOrEnd {s : Text} (h : BlankOrEnd s) : ∀ c ∈ s.head?, c.isDigit = false := by
  intro c hc
  cases hd : c.isDigit with
  | false => rfl
  | true => exact absurd (isspace_of_isDigit hd) (by simp [h c hc])

/-- The item a numeric conversion makes of an integer. -/
def numeralOf (k : Conversion) (v : ℤ) : Item := numeralItem k (v < 0) v.natAbs

lemma convertNumeral_signedDecimal (k : Conversion) (v : ℤ) {s : Text} (hs : BlankOrEnd s) :
    convertNumeral k (signedDecimal v ++ s) = (.ok (numeralOf k v),s) := by
  have hsplit := splitNumeral_signedDecimal v (isDigit_of_blankOrEnd hs)
  rw [convertNumeral, skipSpace_word (signedDecimal_isWord v)]
  split
  · rename_i h
    exact absurd (List.append_eq_nil_iff.mp h).1 (signedDecimal_isWord v).1
  · rename_i h
    simp [← h, hsplit, decimal_ne_nil, numeralOf]

theorem reads_integer {k : Conversion} (hk : ∀ t, CLib.convert k t = convertNumeral k t) (v : ℤ) :
    Reads k (signedDecimal v) (numeralOf k v) where
  isWord := signedDecimal_isWord v
  convert s hs := by rw [hk, convertNumeral_signedDecimal k v hs]

lemma signedDecimal_ofNat (n : ℕ) : signedDecimal n = decimal n := by
  rw [signedDecimal, if_neg (by omega), Int.natAbs_natCast]

lemma numeralOf_ofNat (k : Conversion) (n : ℕ) : numeralOf k n = numeralItem k false n := by
  rw [numeralOf, Int.natAbs_natCast, decide_eq_false (by omega)]

theorem reads_unsigned (long : Bool) (n : ℕ) :
    Reads (.unsigned long) (decimal n) (numeralItem (.unsigned long) false n) := by
  have h := reads_integer (k := .unsigned long) (fun _ => rfl) n
  rwa [signedDecimal_ofNat, numeralOf_ofNat] at h

theorem reads_signed (long : Bool) (n : ℕ) :
    Reads (.signed long) (decimal n) (numeralItem (.signed long) false n) := by
  have h := reads_integer (k := .signed long) (fun _ => rfl) n
  rwa [signedDecimal_ofNat, numeralOf_ofNat] at h

lemma strtol_natAbs {v : ℤ} (h0 : -2^63 ≤ v) (h : v < 2^63) : strtol (v < 0) v.natAbs = v := by
  have hv : (if v < 0 then -(v.natAbs : ℤ) else v.natAbs) = v := by
    split_ifs <;> omega
  simp only [strtol, decide_eq_true_eq, hv]
  omega

lemma strtoul_natAbs {v : ℤ} (h0 : -2^63 ≤ v) (h : v < 2^64) :
    strtoul (v < 0) v.natAbs = asUInt64 v := by
  rw [strtoul, if_neg (by omega), ← UInt64.toNat_inj, toNat_asUInt64]
  by_cases hv : v < 0
  · rw [if_pos (by simpa using hv), UInt64.toNat_neg, UInt64.toNat_ofNat_of_lt' (by
      change _ < 2^64
      omega)]
    change (2^64 - v.natAbs) % 2^64 = _
    omega
  · rw [if_neg (by simpa using hv), UInt64.toNat_ofNat_of_lt' (by
      change _ < 2^64
      omega)]
    omega

/-- What the integers of the C types are read as. -/
theorem numeralOf_int {v : ℤ} (h0 : -2^31 ≤ v) (h : v < 2^31) :
    numeralOf (.signed false) v = .signed v := by
  simp [numeralOf, numeralItem, strtol_natAbs (v := v) (by omega) (by omega), asInt_of_lt h0 h]

theorem numeralOf_long {v : ℤ} (h0 : -2^63 ≤ v) (h : v < 2^63) :
    numeralOf (.signed true) v = .signed v := by
  simp [numeralOf, numeralItem, strtol_natAbs h0 h]

theorem numeralOf_ulong {v : ℤ} (h0 : -2^63 ≤ v) (h : v < 2^64) :
    numeralOf (.unsigned true) v = .unsigned (asUInt64 v) := by
  simp [numeralOf, numeralItem, strtoul_natAbs h0 h]

/-- A signed conversion makes an item of a value in the range of its type. -/
theorem numeralOf_int_range (v : ℤ) :
    ∃ a, numeralOf (.signed false) v = .signed a ∧ -2^31 ≤ a ∧ a < 2^31 :=
  ⟨_,rfl,asInt_range _⟩

theorem numeralOf_long_range (v : ℤ) :
    ∃ a, numeralOf (.signed true) v = .signed a ∧ -2^63 ≤ a ∧ a < 2^63 := by
  refine ⟨strtol (v < 0) v.natAbs,rfl,?_⟩
  unfold strtol
  omega

/-- A field of a format: whether its assignment is suppressed, and its conversion. -/
abbrev FieldFormat := Bool × Conversion

/-- The directives of fields separated by blanks. -/
def fieldDirectives : List FieldFormat → List Directive
  | [] => []
  | [f] => [.convert f.1 f.2]
  | f :: fs => .convert f.1 f.2 :: .space :: fieldDirectives fs

/-- Fields separated by single blanks. -/
def unwords : List Text → Text
  | [] => []
  | [t] => t
  | t :: ts => t ++ ' ' :: unwords ts

theorem unwords_append {ts us : List Text} (ht : ts ≠ []) (hu : us ≠ []) :
    unwords (ts ++ us) = unwords ts ++ ' ' :: unwords us := by
  induction ts with
  | nil => contradiction
  | cons t ts ih =>
    cases ts with
    | nil =>
      cases us with
      | nil => contradiction
      | cons u us => rfl
    | cons t' ts =>
      change t ++ ' ' :: unwords (t' :: ts ++ us) = _
      rw [ih (by simp)]
      simp [unwords]

/-- The items that are stored. -/
def assigned (fs : List FieldFormat) (xs : List Item) : List Item :=
  (fs.zip xs).filterMap fun e => if e.1.1 then none else some e.2

theorem assigned_cons (f : FieldFormat) (fs : List FieldFormat) (x : Item) (xs : List Item) :
    assigned (f :: fs) (x :: xs) = assigned [f] [x] ++ assigned fs xs :=
  List.filterMap_append (l := [(f,x)])

theorem scan_field {f : FieldFormat} {t : Text} {x : Item} (h : Reads f.2 t x)
    (ds : List Directive) {s : Text} (hs : BlankOrEnd s) :
    scan (.convert f.1 f.2 :: ds) (t ++ s) =
      ⟨assigned [f] [x] ++ (scan ds s).items,(scan ds s).failure,(scan ds s).rest⟩ := by
  obtain ⟨b,k⟩ := f
  have hc := h.convert s hs
  cases b with
  | false => simp [scan_convert_ok hc, assigned]
  | true => simp [scan_suppress_ok hc, assigned]

/-- Every conversion of a format reads the field at its place. -/
theorem scan_fields {fs : List FieldFormat} {ts : List (Text × Item)}
    (h : List.Forall₂ (fun f t => Reads f.2 t.1 t.2) fs ts) {s : Text} (hs : BlankOrEnd s) :
    scan (fieldDirectives fs) (unwords (ts.map Prod.fst) ++ s) =
      ⟨assigned fs (ts.map Prod.snd),none,s⟩ := by
  induction h with
  | nil => rfl
  | @cons f t fs ts hf h ih =>
    cases h with
    | nil =>
      rw [fieldDirectives, List.map_cons, List.map_nil, unwords, scan_field hf [] hs]
      simp
    | @cons g u fs ts hg h =>
      have hblank : BlankOrEnd (' ' :: (unwords ((u :: ts).map Prod.fst) ++ s)) :=
        blankOrEnd_cons (by decide) _
      have hskip : skipSpace (' ' :: (unwords ((u :: ts).map Prod.fst) ++ s)) =
          unwords ((u :: ts).map Prod.fst) ++ s := by
        have hw : ∃ r, unwords ((u :: ts).map Prod.fst) ++ s = u.1 ++ r := by
          cases ts with
          | nil => exact ⟨s,rfl⟩
          | cons v ts => exact ⟨_,List.append_assoc _ _ _⟩
        obtain ⟨r,hr⟩ := hw
        rw [hr]
        exact skipSpace_word hg.isWord r
      have hsplit : unwords ((t :: u :: ts).map Prod.fst) ++ s =
          t.1 ++ ' ' :: (unwords ((u :: ts).map Prod.fst) ++ s) := by
        simp [unwords]
      rw [hsplit, fieldDirectives, scan_field hf _ hblank, scan_space, hskip, ih]
      · dsimp only
        rw [← assigned_cons]
        rfl
      · simp

/-- Conversions other than `%c` skip the blanks in front of them. -/
theorem convert_blank {k : Conversion} (hc : k ≠ .char) (hu : k ≠ .unknown) (s : Text) :
    convert k (' ' :: s) = convert k s := by
  have hskip : skipSpace (' ' :: s) = skipSpace s := by simp [skipSpace, isspace]
  cases k with
  | signed long => simp only [convert, convertNumeral, hskip]
  | unsigned long => simp only [convert, convertNumeral, hskip]
  | word => simp only [convert, hskip]
  | char => contradiction
  | unknown => contradiction

theorem scan_blank {k : Conversion} (hc : k ≠ .char) (hu : k ≠ .unknown) (b : Bool)
    (ds : List Directive) (s : Text) :
    scan (.convert b k :: ds) (' ' :: s) = scan (.convert b k :: ds) s := by
  rw [scan, scan, convert_blank hc hu]

end CLib
