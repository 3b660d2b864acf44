import Cphf.CLib.Text

/-! Hexadecimal numerals read back. -/
namespace CLib

/-- The value of a hexadecimal digit. -/
def hexDigit (c : Char) : Option ℕ :=
  if c.isDigit then some (c.toNat - '0'.toNat)
  else if 'a' ≤ c ∧ c ≤ 'f' then some (c.toNat - 'a'.toNat + 10)
  else none

/-- The value of a run of hexadecimal digits. -/
def hexValue (ds : Text) : Option ℕ :=
  ds.foldlM (fun v c => (hexDigit c).map (16*v + ·)) 0

theorem hexValue_toDigits (n : ℕ) : hexValue (Nat.toDigits 16 n) = some n := by
  have hdigit : ∀ d < 16, hexDigit (Nat.digitChar d) = some d := by decide
  induction n using Nat.strong_induction_on with
  | _ n ih =>
    rw [Nat.toDigits_eq_if (by decide)]
    split
    · simp [hexValue, hdigit n ‹_›]
    · have hdiv := ih (n/16) (Nat.div_lt_self (by omega) (by decide))
      have hmod := hdigit (n % 16) (Nat.mod_lt _ (by decide))
      rw [hexValue] at hdiv ⊢
      rw [List.foldlM_append, hdiv]
      simp only [Option.bind_eq_bind, Option.bind_some, List.foldlM_cons, List.foldlM_nil, hmod,
        Option.map_some, Option.pure_def]
      congr 1
      omega

/-- A number as it is printed under `showbase`. -/
def parseHex (s : Text) : Option ℕ :=
  if s = ['0'] then some 0
  else if s.take 2 = "0x".toList ∧ 2 < s.length then hexValue (s.drop 2)
  else none

theorem parseHex_hexShowBase (n : ℕ) : parseHex (hexShowBase n) = some n := by
  rw [hexShowBase, parseHex]
  by_cases hn : n = 0
  · simp [hn]
  · have hlen := @Nat.length_toDigits_pos 16 n
    rw [if_neg hn, if_neg (by simp), if_pos ⟨rfl,by simpa using hlen⟩]
    exact hexValue_toDigits n

theorem isspace_hexShowBase {n : ℕ} {c : Char} (h : c ∈ hexShowBase n) : isspace c = false := by
  have hdigit : ∀ d < 16, isspace (Nat.digitChar d) = false := by decide
  rw [hexShowBase] at h
  split at h
  · rw [List.mem_singleton.mp h]
    rfl
  · simp only [List.mem_cons] at h
    obtain rfl | rfl | h := h
    · rfl
    · rfl
    · obtain ⟨d,hd,rfl⟩ := mem_toDigits (by decide) h
      exact hdigit d hd

end CLib
