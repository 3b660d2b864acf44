import Mathlib

/-! Conversions between the C integer types: `int` and `long` are integers in range,
`unsigned int` and `unsigned long` are machine words. -/
namespace CLib

/-- The value an `int` holds after an integer is stored in it. -/
def asInt (v : ℤ) : ℤ := v.bmod (2^32)

/-- The value a `long` holds after an integer is stored in it. -/
def asLong (v : ℤ) : ℤ := v.bmod (2^64)

/-- The value an `unsigned int` holds after an integer is stored in it. -/
def asUInt32 (v : ℤ) : UInt32 := UInt32.ofNat (v % 2^32).toNat

/-- The value an `unsigned long` holds after an integer is stored in it. -/
def asUInt64 (v : ℤ) : UInt64 := UInt64.ofNat (v % 2^64).toNat

theorem asInt_of_lt {v : ℤ} (h0 : -2^31 ≤ v) (h : v < 2^31) : asInt v = v := by
  unfold asInt
  rw [Int.bmod_def]
  split <;> omega

theorem asInt_range (v : ℤ) : -2^31 ≤ asInt v ∧ asInt v < 2^31 := by
  unfold asInt
  rw [Int.bmod_def]
  split <;> omega

theorem asLong_of_lt {v : ℤ} (h0 : -2^63 ≤ v) (h : v < 2^63) : asLong v = v := by
  unfold asLong
  rw [Int.bmod_def]
  split <;> omega

/-- Narrowing a word to `int` and back to `unsigned int` loses nothing. -/
theorem asInt_emod (v : ℤ) : asInt v % 2^32 = v % 2^32 := by
  unfold asInt
  rw [Int.bmod_def]
  split <;> omega

@[simp] theorem toNat_asUInt32 (v : ℤ) : (asUInt32 v).toNat = (v % 2^32).toNat := by
  unfold asUInt32
  rw [UInt32.toNat_ofNat_of_lt']
  change _ < 2^32
  omega

@[simp] theorem toNat_asUInt64 (v : ℤ) : (asUInt64 v).toNat = (v % 2^64).toNat := by
  unfold asUInt64
  rw [UInt64.toNat_ofNat_of_lt']
  change _ < 2^64
  omega

@[simp] theorem asUInt32_asInt (v : ℤ) : asUInt32 (asInt v) = asUInt32 v := by
  unfold asUInt32
  rw [asInt_emod]

@[simp] theorem asUInt32_toNat (x : UInt32) : asUInt32 x.toNat = x := by
  have h := x.toNat_lt
  apply UInt32.toNat_inj.mp
  rw [toNat_asUInt32]
  omega

@[simp] theorem asUInt64_toUInt32 (v : ℤ) : (asUInt64 v).toUInt32 = asUInt32 v := by
  apply UInt32.toNat_inj.mp
  rw [UInt64.toNat_toUInt32, toNat_asUInt64, toNat_asUInt32]
  omega

/-- Words with the same `int` value are the same word. -/
theorem asInt_injective_on {x y : UInt32} (h : asInt x.toNat = asInt y.toNat) : x = y := by
  have he := congrArg asUInt32 h
  simpa using he

/-- An `int` survives the trip through an unsigned word. -/
theorem asInt_asUInt32 {v : ℤ} (h0 : -2^31 ≤ v) (h : v < 2^31) :
    asInt (asUInt32 v).toNat = v := by
  rw [toNat_asUInt32]
  unfold asInt
  rw [Int.bmod_def]
  split <;> omega

/-- A `long` survives the trip through an unsigned word. -/
theorem asLong_asUInt64 {v : ℤ} (h0 : -2^63 ≤ v) (h : v < 2^63) :
    asLong (asUInt64 v).toNat = v := by
  rw [toNat_asUInt64]
  unfold asLong
  rw [Int.bmod_def]
  split <;> omega

end CLib
