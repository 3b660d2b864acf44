import Cphf.Lsof.Reader

/-! The field stream as a list of records. The loop of `bufferedRead` is a run over the
tokens its calls to `fscanf` yield, and a stream of complete records yields its records. -/
namespace Cphf
open CLib

theorem directives_token :
    directives .plain "%c%s\n".toList = [.convert false .char,.convert false .word,.space] := rfl

@[simp] theorem nextToken_nil : nextToken [] = none := rfl

/-- A token is an identifier byte and, unless the stream ends before it, a word. -/
theorem nextToken_cons (c : Char) (s : Text) :
    nextToken (c :: s) =
      if skipSpace s = [] then some (⟨c,none⟩,[])
      else some (⟨c,some (takeWord (skipSpace s))⟩,skipSpace (dropWord (skipSpace s))) := by
  have hw : convert .word s = if skipSpace s = [] then (.error .input,[])
      else (.ok (.word (takeWord (skipSpace s))),dropWord (skipSpace s)) := by
    unfold convert
    cases skipSpace s <;> simp
  unfold nextToken fscanf
  rw [directives_token, scan_convert_ok (convert_char_cons c s)]
  split_ifs with h
  · rw [if_pos h] at hw
    rw [scan_convert_error hw]
    simp [Scan.result]
  · rw [if_neg h] at hw
    rw [scan_convert_ok hw]
    simp [Scan.result]

theorem nextToken_length {fin rest : Text} {t : Token} (h : nextToken fin = some (t,rest)) :
    rest.length < fin.length := by
  cases fin with
  | nil => simp at h
  | cons c s =>
    rw [nextToken_cons] at h
    split_ifs at h
    · simp only [Option.some.injEq, Prod.mk.injEq] at h
      simp [← h.2]
    · simp only [Option.some.injEq, Prod.mk.injEq] at h
      have h1 := skipSpace_length_le s
      have h2 := dropWord_length_le (skipSpace s)
      have h3 := skipSpace_length_le (dropWord (skipSpace s))
      rw [← h.2, List.length_cons]
      omega

/-- The tokens of a stream, in the order the loop meets them. -/
def tokensUpTo : ℕ → Text → List Token
  | 0,_ => []
  | n+1,fin =>
    match nextToken fin with
    | none => []
    | some (t,rest) => t :: tokensUpTo n rest

def tokens (fin : Text) : List Token := tokensUpTo (fin.length+1) fin

theorem tokensUpTo_of_length_lt {n : ℕ} {fin : Text} (h : fin.length < n) :
    tokensUpTo n fin = tokens fin := by
  unfold tokens
  suffices hg : ∀ m n fin, fin.length < m → fin.length < n →
      tokensUpTo m fin = tokensUpTo n fin from hg n _ fin h (by omega)
  intro m
  induction m with
  | zero => intro n fin h; omega
  | succ m ih =>
    intro n fin hm hn
    cases n with
    | zero => omega
    | succ n =>
      unfold tokensUpTo
      cases ht : nextToken fin with
      | none => rfl
      | some r =>
        obtain ⟨t,rest⟩ := r
        have hl := nextToken_length ht
        simp only [List.cons.injEq, true_and]
        exact ih n rest (by omega) (by omega)

theorem tokens_of_none {fin : Text} (h : nextToken fin = none) : tokens fin = [] := by
  simp [tokens, tokensUpTo, h]

theorem tokens_of_some {fin rest : Text} {t : Token} (h : nextToken fin = some (t,rest)) :
    tokens fin = t :: tokens rest := by
  have hl := nextToken_length h
  rw [tokens, tokensUpTo, h]
  simp only [List.cons.injEq, true_and]
  exact tokensUpTo_of_length_lt (by omega)

@[simp] theorem tokens_nil : tokens [] = [] := rfl

theorem bufferedReadLoop_eq_run (T : UInt64) (n : ℕ) (st : LsofLoop) (fin : Text) :
    bufferedReadLoop T n st fin = run (LsofLoop.iterate T) st (tokensUpTo n fin) := by
  induction n generalizing st fin with
  | zero => rfl
  | succ n ih =>
    unfold bufferedReadLoop tokensUpTo
    cases nextToken fin with
    | none => rfl
    | some r => simp [ih]

/-- The whole loop is a run of its body over the tokens of the stream. -/
theorem bufferedReadState_eq_run (T : UInt64) (m : ProcMap) (fin : Text) :
    bufferedReadState T m fin = run (LsofLoop.iterate T) (LsofLoop.init T m) (tokens fin) :=
  bufferedReadLoop_eq_run T _ _ fin

/-- A field value: a word that fits the buffer. -/
structure Value where
  text : Text
  isWord : IsWord text
  short : text.length < bufferSize

/-- A record of the field stream: an identifier byte that is not blank, and a value. -/
structure Record where
  id : Char
  value : Value
  id_visible : isspace id = false

def Record.of (id : Char) (text : Text)
    (h : isspace id = false ∧ IsWord text ∧ text.length < bufferSize) : Record :=
  ⟨id,⟨text,h.2.1,h.2.2⟩,h.1⟩

def Record.line (r : Record) : Text := r.id :: r.value.text ++ ['\n']

def Record.token (r : Record) : Token := ⟨r.id,some r.value.text⟩

/-- The stream a list of complete records is written as. -/
def lines (rs : List Record) : Text := rs.flatMap Record.line

/-- The stream is at a record boundary: nothing, or a byte that is not blank. -/
def AtBoundary (s : Text) : Prop := skipSpace s = s

@[simp] theorem lines_nil : lines [] = [] := rfl

@[simp] theorem lines_cons (r : Record) (rs : List Record) :
    lines (r :: rs) = r.line ++ lines rs := rfl

theorem atBoundary_lines (rs : List Record) {s : Text} (hs : AtBoundary s) :
    AtBoundary (lines rs ++ s) := by
  cases rs with
  | nil => simpa using hs
  | cons r rs => exact skipSpace_cons_of_not r.id_visible _

theorem nextToken_line (r : Record) {s : Text} (hs : AtBoundary s) :
    nextToken (r.line ++ s) = some (r.token,s) := by
  have hl : r.line ++ s = r.id :: (r.value.text ++ '\n' :: s) := by simp [Record.line]
  have hb : isspace '\n' = true := rfl
  have hk := skipSpace_word r.value.isWord ('\n' :: s)
  rw [hl, nextToken_cons, hk, if_neg (by simp), takeWord_append r.value.isWord.2 hb,
    dropWord_append r.value.isWord.2 hb]
  have hn : skipSpace ('\n' :: s) = skipSpace s := by simp [skipSpace, hb]
  rw [hn, hs]
  rfl

/-- Complete records are read back one token each, and what follows them is left alone. -/
theorem tokens_lines_append (rs : List Record) {s : Text} (hs : AtBoundary s) :
    tokens (lines rs ++ s) = rs.map Record.token ++ tokens s := by
  induction rs with
  | nil => rfl
  | cons r rs ih =>
    have hb := atBoundary_lines rs hs
    rw [lines_cons, List.append_assoc, tokens_of_some (nextToken_line r hb), ih]
    rfl

theorem tokens_lines (rs : List Record) : tokens (lines rs) = rs.map Record.token := by
  simpa using tokens_lines_append rs (s := []) rfl

/-- The cut forms of a record's line: nothing, the identifier alone, or a shortened value. -/
theorem strict_prefix_line {r : Record} {s : Text} (hp : s <+: r.line) (hne : s ≠ r.line) :
    s = [] ∨ s = [r.id] ∨ ∃ v : Value, v.text <+: r.value.text ∧ s = r.id :: v.text := by
  obtain ⟨u,hu⟩ := hp
  have hcut : s <+: r.id :: r.value.text := by
    obtain rfl | ⟨u,c,rfl⟩ := List.eq_nil_or_concat' u
    · exact absurd (by simpa using hu) hne
    · rw [← List.append_assoc, Record.line] at hu
      exact ⟨u,List.append_inj_left' hu rfl⟩
  cases s with
  | nil => exact .inl rfl
  | cons c w =>
    obtain ⟨rfl,hw⟩ := List.cons_prefix_cons.mp hcut
    by_cases hn : w = []
    · exact .inr (.inl (by rw [hn]))
    · refine .inr (.inr ⟨⟨w,⟨hn,fun c hc => r.value.isWord.2 c (hw.subset hc)⟩,?_⟩,hw,rfl⟩)
      exact hw.length_le.trans_lt r.value.short

/-- What the loop makes of a cut record: no token, or one with the value read so far. -/
theorem tokens_id {c : Char} : tokens [c] = [⟨c,none⟩] := by
  rw [tokens_of_some (nextToken_cons c [])]
  rfl

theorem tokens_cut (c : Char) (v : Value) : tokens (c :: v.text) = [⟨c,some v.text⟩] := by
  have hk : skipSpace v.text = v.text := by simpa using skipSpace_word v.isWord []
  have ht : nextToken (c :: v.text) = some (⟨c,some v.text⟩,[]) := by
    rw [nextToken_cons, hk, if_neg v.isWord.1, takeWord_all v.isWord.2, dropWord_all v.isWord.2]
    rfl
  rw [tokens_of_some ht, tokens_nil]

end Cphf
