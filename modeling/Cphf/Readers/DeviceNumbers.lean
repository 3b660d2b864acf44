import Cphf.Readers.Base

/-! Device texts can be read back. The major and the minor number take up all bits of a device
number, and both stand in front of whatever the table of drivers adds. -/
namespace Cphf
open CLib

/-- The device number of a major and a minor one. -/
def makedev (major minor : ℕ) : UInt64 :=
  UInt64.ofNat (((major % 2^12) <<< 8) ||| ((major >>> 12) <<< 44) ||| (minor % 2^8) |||
    ((minor >>> 8) <<< 20))

/-- The device number a text begins with. -/
def deviceRead (t : Text) : UInt64 :=
  let rest := (t.dropWhile Char.isDigit).drop 1
  makedev (digitsValue (t.takeWhile Char.isDigit)) (digitsValue (rest.takeWhile Char.isDigit))

/-- The bits of a mask of `w` ones above `s` zeros. -/
lemma testBit_mask (w s i : ℕ) :
    ((2^w-1) <<< s).testBit i = decide (s ≤ i ∧ i < s+w) := by
  rw [Nat.testBit_shiftLeft, Nat.testBit_two_pow_sub_one, ← Bool.decide_and]
  apply decide_eq_decide.mpr
  omega

theorem majorOf_testBit (dev : UInt64) (i : ℕ) : (majorOf dev).testBit i =
    if i < 12 then dev.toNat.testBit (i+8) else decide (i < 32) && dev.toNat.testBit (i+32) := by
  have hlow : (0x00000000000fff00 : UInt64).toNat = (2^12-1) <<< 8 := rfl
  have hhigh : (0xfffff00000000000 : UInt64).toNat = (2^20-1) <<< 44 := rfl
  have h8 : (8 : UInt64).toNat % 64 = 8 := rfl
  have h32 : (32 : UInt64).toNat % 64 = 32 := rfl
  rw [majorOf, UInt64.toNat_or, UInt64.toNat_shiftRight, UInt64.toNat_shiftRight, UInt64.toNat_and,
    UInt64.toNat_and, hlow, hhigh, h8, h32]
  simp only [Nat.testBit_or, Nat.testBit_shiftRight, Nat.testBit_and, testBit_mask]
  by_cases hi : i < 12
  · rw [if_pos hi, decide_eq_true (by omega : 8 ≤ 8+i ∧ 8+i < 8+12),
      decide_eq_false (by omega : ¬ (44 ≤ 32+i ∧ 32+i < 44+20)), Nat.add_comm]
    simp
  · have hmask : decide (44 ≤ 32+i ∧ 32+i < 44+20) = decide (i < 32) :=
      decide_eq_decide.mpr (by omega)
    rw [if_neg hi, decide_eq_false (by omega : ¬ (8 ≤ 8+i ∧ 8+i < 8+12)), hmask, Nat.add_comm 32]
    simp [Bool.and_comm]

theorem minorOf_testBit (dev : UInt64) (i : ℕ) : (minorOf dev).testBit i =
    if i < 8 then dev.toNat.testBit i else decide (i < 32) && dev.toNat.testBit (i+12) := by
  have hlow : (0xff : UInt64).toNat = (2^8-1) <<< 0 := rfl
  have hhigh : (0x00000ffffff00000 : UInt64).toNat = (2^24-1) <<< 20 := rfl
  have h12 : (12 : UInt64).toNat % 64 = 12 := rfl
  rw [minorOf, UInt64.toNat_or, UInt64.toNat_shiftRight, UInt64.toNat_and, UInt64.toNat_and, hlow,
    hhigh, h12]
  simp only [Nat.testBit_or, Nat.testBit_shiftRight, Nat.testBit_and, testBit_mask]
  by_cases hi : i < 8
  · rw [if_pos hi, decide_eq_true (by omega : 0 ≤ i ∧ i < 0+8),
      decide_eq_false (by omega : ¬ (20 ≤ 12+i ∧ 12+i < 20+24))]
    simp
  · have hmask : decide (20 ≤ 12+i ∧ 12+i < 20+24) = decide (i < 32) :=
      decide_eq_decide.mpr (by omega)
    rw [if_neg hi, decide_eq_false (by omega : ¬ (0 ≤ i ∧ i < 0+8)), hmask, Nat.add_comm 12]
    simp [Bool.and_comm]

/-- The two numbers give the device number back. -/
theorem makedev_eq (dev : UInt64) : makedev (majorOf dev) (minorOf dev) = dev := by
  apply UInt64.toNat_inj.mp
  apply Nat.eq_of_testBit_eq
  intro i
  rw [makedev, UInt64.toNat_ofNat']
  simp only [Nat.testBit_mod_two_pow, Nat.testBit_or, Nat.testBit_shiftLeft, Nat.testBit_shiftRight,
    majorOf_testBit, minorOf_testBit]
  by_cases h64 : i < 64
  · rcases (by omega : i < 8 ∨ 8 ≤ i ∧ i < 20 ∨ 20 ≤ i ∧ i < 44 ∨ 44 ≤ i) with h | h | h | h
    all_goals grind
  · have hzero : dev.toNat.testBit i = false :=
      Nat.testBit_lt_two_pow (dev.toNat_lt.trans_le (Nat.pow_le_pow_right Nat.two_pos (by omega)))
    rw [hzero, decide_eq_false h64, Bool.false_and]

/-- Digits up to the first character that is none. -/
lemma decimal_takeWhile (n : ℕ) {c : Char} (hc : c.isDigit = false) (s : Text) :
    (decimal n ++ c :: s).takeWhile Char.isDigit = decimal n ∧
      ((decimal n ++ c :: s).dropWhile Char.isDigit).drop 1 = s := by
  have hdigits : ∀ d ∈ decimal n, d.isDigit = true := fun _ => isDigit_of_mem_decimal
  constructor
  · rw [List.takeWhile_append_of_pos hdigits, List.takeWhile_cons_of_neg (by simp [hc]),
      List.append_nil]
  · rw [List.dropWhile_append_of_pos hdigits, List.dropWhile_cons_of_neg (by simp [hc])]
    rfl

/-- Whatever the table of drivers says, the text gives the device number back. -/
theorem deviceRead_deviceText (deviceMap : DeviceMap) (dev : UInt64) :
    deviceRead (deviceText deviceMap dev) = dev := by
  obtain ⟨rest,htext⟩ : ∃ rest, deviceText deviceMap dev =
      decimal (majorOf dev) ++ ',' :: (decimal (minorOf dev) ++ '\t' :: rest) := by
    unfold deviceText
    dsimp only
    split
    · exact ⟨['?'],by simp⟩
    · rename_i devlabel _
      split_ifs
      · exact ⟨devlabel ++ decimal (minorOf dev),by simp⟩
      · exact ⟨devlabel ++ '/' :: decimal (minorOf dev),by simp⟩
      · exact ⟨[],by simp⟩
  obtain ⟨hmajor,hrest⟩ := decimal_takeWhile (majorOf dev) (c := ',') rfl
    (decimal (minorOf dev) ++ '\t' :: rest)
  rw [htext, deviceRead, hmajor, hrest, (decimal_takeWhile (minorOf dev) rfl rest).1, digitsValue_decimal,
    digitsValue_decimal, makedev_eq]

/-- The device attribute tells which device a file is on, or is: from its text the device number
can be read back, whatever `/proc/tty/drivers` holds. -/
theorem deviceRead_readDevice {sys : System} {info : Stat} {t : Text}
    (h : readDevice sys info = .ok t) : deviceRead t = deviceOf info := by
  obtain ⟨deviceMap,_,he⟩ := bind_eq_ok.mp h
  cases he
  exact deviceRead_deviceText deviceMap (deviceOf info)

/-- The first partition of a disk, on a system without a table. -/
theorem deviceRead_readDevice_one :
    ∃ t, readDevice answering { (default : Stat) with st_dev := 0x801 } = .ok t ∧
      deviceRead t = deviceOf { (default : Stat) with st_dev := 0x801 } := by
  have h : Completes (readDevice answering { (default : Stat) with st_dev := 0x801 }) := ⟨_,rfl⟩
  obtain ⟨t,ht⟩ := h
  exact ⟨t,ht,deviceRead_readDevice ht⟩

end Cphf
