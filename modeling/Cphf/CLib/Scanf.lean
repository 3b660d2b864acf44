import Cphf.CLib.Text

/-! Formatted input. A format string is read into directives, and a call consumes the
stream directive by directive until one fails; the next call goes on where it stopped. -/
namespace CLib

inductive Conversion
  | signed (long : Bool)
  | unsigned (long : Bool)
  | char
  | word
  | unknown
  deriving DecidableEq

inductive Directive
  | space
  | literal (c : Char)
  | convert (suppress : Bool) (k : Conversion)
  deriving DecidableEq

/-- The conversion a letter names after `longs` modifiers `l`. -/
def conversionOf (longs : ℕ) (c : Char) : Conversion :=
  if c = 'd' then .signed (longs ≠ 0)
  else if c = 'u' then .unsigned (longs ≠ 0)
  else if c = 'c' then .char
  else if c = 's' then .word
  else .unknown

/-- The state of a format reader: outside a conversion, or after `%`, `*` and some `l`. -/
inductive FormatState
  | plain
  | percent (suppress : Bool) (longs : ℕ)

def directives : FormatState → Text → List Directive
  | _,[] => []
  | .plain,c :: s =>
    if c = '%' then directives (.percent false 0) s
    else (if isspace c then .space else .literal c) :: directives .plain s
  | .percent suppress longs,c :: s =>
    if c = '*' then directives (.percent true longs) s
    else if c = 'l' then directives (.percent suppress (longs+1)) s
    else .convert suppress (conversionOf longs c) :: directives .plain s

/-- A converted input item. -/
inductive Item
  | signed (v : ℤ)
  | unsigned (v : UInt64)
  | char (c : Char)
  | word (w : Text)
  deriving DecidableEq

/-- The stream ended, or what it holds does not match. -/
inductive Failure
  | input
  | matching
  deriving DecidableEq

/-- The value of a matched numeral; without `l` it is truncated to 32 bits. -/
def numeralItem (k : Conversion) (neg : Bool) (n : ℕ) : Item :=
  match k with
  | .signed long => .signed (if long then strtol neg n else asInt (strtol neg n))
  | .unsigned long =>
    .unsigned (if long then strtoul neg n else (strtoul neg n).toUInt32.toUInt64)
  | _ => .signed 0

/-- Numeric conversions skip blanks and take a sign and digits; a sign alone is consumed. -/
def convertNumeral (k : Conversion) (s : Text) : Except Failure Item × Text :=
  match skipSpace s with
  | [] => (.error .input,[])
  | c :: r =>
    let (neg,ds,rest) := splitNumeral (c :: r)
    if ds = [] then (.error .matching,rest) else (.ok (numeralItem k neg (digitsValue ds)),rest)

def convert (k : Conversion) (s : Text) : Except Failure Item × Text :=
  match k with
  | .signed _ => convertNumeral k s
  | .unsigned _ => convertNumeral k s
  | .char =>
    match s with
    | [] => (.error .input,[])
    | c :: r => (.ok (.char c),r)
  | .word =>
    match skipSpace s with
    | [] => (.error .input,[])
    | c :: r => (.ok (.word (takeWord (c :: r))),dropWord (c :: r))
  | .unknown => (.error .matching,s)

/-- What a call leaves behind: the items it assigned, why it stopped, the unread stream. -/
structure Scan where
  items : List Item
  failure : Option Failure
  rest : Text
  deriving DecidableEq

def scan : List Directive → Text → Scan
  | [],s => ⟨[],none,s⟩
  | .space :: ds,s => scan ds (skipSpace s)
  | .literal c :: ds,s =>
    match s with
    | [] => ⟨[],some .input,[]⟩
    | d :: r => if d = c then scan ds r else ⟨[],some .matching,d :: r⟩
  | .convert suppress k :: ds,s =>
    match convert k s with
    | (.error e,rest) => ⟨[],some e,rest⟩
    | (.ok item,rest) =>
      if suppress then scan ds rest
      else ⟨item :: (scan ds rest).items,(scan ds rest).failure,(scan ds rest).rest⟩

/-- The returned count: `EOF` when the input ended before anything was assigned. -/
def Scan.result (r : Scan) : ℤ :=
  if r.items = [] ∧ r.failure = some .input then -1 else r.items.length

/-- `fscanf` on the unread part of a stream. -/
def fscanf (format : Text) (s : Text) : Scan := scan (directives .plain format) s

@[simp] theorem scan_nil (s : Text) : scan [] s = ⟨[],none,s⟩ := rfl

@[simp] theorem scan_space (ds : List Directive) (s : Text) :
    scan (.space :: ds) s = scan ds (skipSpace s) := rfl

theorem scan_convert_ok {k : Conversion} {s rest : Text} {item : Item}
    (h : convert k s = (.ok item,rest)) (ds : List Directive) :
    scan (.convert false k :: ds) s =
      ⟨item :: (scan ds rest).items,(scan ds rest).failure,(scan ds rest).rest⟩ := by
  simp [scan, h]

theorem scan_suppress_ok {k : Conversion} {s rest : Text} {item : Item}
    (h : convert k s = (.ok item,rest)) (ds : List Directive) :
    scan (.convert true k :: ds) s = scan ds rest := by
  simp [scan, h]

theorem scan_convert_error {k : Conversion} {s rest : Text} {e : Failure} {b : Bool}
    (h : convert k s = (.error e,rest)) (ds : List Directive) :
    scan (.convert b k :: ds) s = ⟨[],some e,rest⟩ := by
  simp [scan, h]

@[simp] theorem convert_char_cons (c : Char) (s : Text) :
    convert .char (c :: s) = (.ok (.char c),s) := rfl

/-- A word conversion reads the word at hand, whether a blank or the end follows it. -/
theorem convert_word {w : Text} (h : IsWord w) (s : Text) :
    convert .word (w ++ s) = (.ok (.word (takeWord (w ++ s))),dropWord (w ++ s)) := by
  have hs := skipSpace_word h s
  cases hw : w ++ s with
  | nil => exact absurd (List.append_eq_nil_iff.mp hw).1 h.1
  | cons c r =>
    rw [hw] at hs
    simp [convert, hs]

theorem convert_word_blank {w : Text} (h : IsWord w) {c : Char} (hc : isspace c = true)
    (s : Text) : convert .word (w ++ c :: s) = (.ok (.word w),c :: s) := by
  rw [convert_word h, takeWord_append h.2 hc, dropWord_append h.2 hc]

theorem convert_word_end {w : Text} (h : IsWord w) : convert .word w = (.ok (.word w),[]) := by
  have he := convert_word h []
  rwa [List.append_nil, takeWord_all h.2, dropWord_all h.2] at he

/-- The items a format asks for. -/
def stores : List Directive → ℕ
  | [] => 0
  | .convert false _ :: ds => stores ds + 1
  | _ :: ds => stores ds

theorem scan_length_le (ds : List Directive) (s : Text) : (scan ds s).items.length ≤ stores ds := by
  induction ds generalizing s with
  | nil => exact le_rfl
  | cons d ds ih =>
    cases d with
    | space => exact ih _
    | literal c =>
      cases s with
      | nil => exact Nat.zero_le _
      | cons d r =>
        rw [scan]
        split_ifs
        · exact ih r
        · exact Nat.zero_le _
    | convert suppress k =>
      cases h : convert k s with
      | mk x rest =>
        cases x with
        | error e =>
          rw [scan_convert_error h]
          exact Nat.zero_le _
        | ok item =>
          cases suppress with
          | true =>
            rw [scan_suppress_ok h]
            exact ih rest
          | false =>
            rw [scan_convert_ok h]
            exact Nat.succ_le_succ (ih rest)

namespace Scan
variable {r : Scan}

theorem result_le (r : Scan) : r.result ≤ r.items.length := by
  unfold result
  split_ifs <;> omega

theorem result_eq (h : r.items ≠ []) : r.result = r.items.length := by
  rw [result, if_neg fun hr => h hr.1]

/-- A positive count is that of the items. -/
theorem result_eq_iff {n : ℕ} (hn : n ≠ 0) : r.result = n ↔ r.items.length = n := by
  constructor
  · intro h
    have hle := r.result_le
    have hne : r.items ≠ [] := by
      intro hnil
      rw [hnil] at hle
      simp only [List.length_nil] at hle
      omega
    rw [result_eq hne] at h
    exact Int.ofNat_inj.mp h
  · intro h
    rw [result_eq fun hnil => hn (by rw [← h, hnil, List.length_nil]), h]

end Scan

end CLib
