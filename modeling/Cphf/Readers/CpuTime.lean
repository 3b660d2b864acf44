import Cphf.Readers.Times

/-! CPU times. `readETime` keeps the seconds in an `int` before it splits them. -/
namespace Cphf
open CLib

/-- What the format `"%d:%02d:%02d"` makes of three numbers. -/
def clockText (h m s : ℤ) : Text := signedDecimal h ++ ':' :: twoDigits m ++ ':' :: twoDigits s

theorem digitsValue_twoDigits {v : ℤ} (h : 0 ≤ v) : (digitsValue (twoDigits v) : ℤ) = v := by
  have hv : digitsValue (twoDigits v) = v.natAbs := by
    rw [twoDigits, if_neg (by omega), digitsValue, Nat.ofDigitChars_append,
      Nat.ofDigitChars_replicate_zero, mul_zero]
    exact digitsValue_decimal _
  omega

theorem isDigit_of_mem_twoDigits {v : ℤ} (h : 0 ≤ v) {c : Char} (hc : c ∈ twoDigits v) :
    c.isDigit = true := by
  rw [twoDigits, if_neg (by omega)] at hc
  cases List.mem_append.mp hc with
  | inl hc =>
    rw [List.eq_of_mem_replicate hc]
    rfl
  | inr hc => exact isDigit_of_mem_decimal hc

theorem isDigit_of_mem_signedDecimal {v : ℤ} (h : 0 ≤ v) {c : Char} (hc : c ∈ signedDecimal v) :
    c.isDigit = true := by
  rw [signedDecimal, if_neg (by omega)] at hc
  exact isDigit_of_mem_decimal hc

section
variable {h m s h' m' s' : ℤ}

/-- Without signs the text tells the three numbers. -/
theorem clockText_inj (hh : 0 ≤ h) (hm : 0 ≤ m) (hs : 0 ≤ s) (hh' : 0 ≤ h') (hm' : 0 ≤ m')
    (hs' : 0 ≤ s') (he : clockText h m s = clockText h' m' s') : h = h' ∧ m = m' ∧ s = s' := by
  have hcolon : ∀ {t : Text}, (∀ c ∈ t, c.isDigit = true) → ':' ∉ t := fun ht hc =>
    absurd (ht _ hc) (by decide)
  rw [clockText, clockText, List.append_assoc, List.append_assoc] at he
  obtain ⟨he1,he⟩ := cut_inj (hcolon fun c => isDigit_of_mem_signedDecimal hh)
    (hcolon fun c => isDigit_of_mem_signedDecimal hh') he
  obtain ⟨he2,he3⟩ := cut_inj (hcolon fun c => isDigit_of_mem_twoDigits hm)
    (hcolon fun c => isDigit_of_mem_twoDigits hm') he
  rw [signedDecimal, signedDecimal, if_neg (by omega), if_neg (by omega)] at he1
  have hd := decimal_injective he1
  rw [← digitsValue_twoDigits hm, ← digitsValue_twoDigits hs, he2, he3,
    digitsValue_twoDigits hm', digitsValue_twoDigits hs']
  exact ⟨by omega,rfl,rfl⟩

/-- A number below zero leaves its sign within the twelve bytes that are kept. -/
theorem minus_mem_clockText (hh : h ≤ 0) (hm : m ≤ 0) (hs : s ≤ 0) (hneg : h < 0 ∨ m < 0 ∨ s < 0) :
    '-' ∈ (clockText h m s).take 12 := by
  have hminus : ∀ {v : ℤ}, v < 0 → twoDigits v = '-' :: decimal v.natAbs := by
    intro v hv
    rw [twoDigits, if_pos hv, signedDecimal, if_pos hv]
  by_cases hh0 : h < 0
  · rw [clockText, signedDecimal, if_pos hh0]
    exact List.mem_cons_self
  · obtain rfl : h = 0 := by omega
    by_cases hm0 : m < 0
    · have ht : clockText 0 m s = '0' :: ':' :: '-' :: (decimal m.natAbs ++ ':' :: twoDigits s) := by
        rw [clockText, hminus hm0]
        rfl
      rw [ht]
      simp
    · obtain rfl : m = 0 := by omega
      have ht : clockText 0 0 s = '0' :: ':' :: '0' :: '0' :: ':' :: '-' :: decimal s.natAbs := by
        rw [clockText, hminus (by omega : s < 0)]
        rfl
      rw [ht]
      simp

/-- Numbers of a time are printed without a sign. -/
theorem minus_notMem_clockText (hh : 0 ≤ h) (hm : 0 ≤ m) (hs : 0 ≤ s) : '-' ∉ clockText h m s := by
  have hdigit : '-'.isDigit ≠ true := by decide
  simp only [clockText, List.mem_append, List.mem_cons, not_or]
  exact ⟨⟨fun hc => hdigit (isDigit_of_mem_signedDecimal hh hc),by decide,
    fun hc => hdigit (isDigit_of_mem_twoDigits hm hc)⟩,by decide,
    fun hc => hdigit (isDigit_of_mem_twoDigits hs hc)⟩

theorem length_clockText (hh : 0 ≤ h) (hlt : h < 10^6) (hm : 0 ≤ m ∧ m < 60) (hs : 0 ≤ s ∧ s < 60) :
    (clockText h m s).length ≤ 12 := by
  have hlen : (signedDecimal h).length ≤ 6 := by
    rw [signedDecimal, if_neg (by omega)]
    exact (Nat.length_toDigits_le_iff (by decide) (by decide)).mpr (by omega)
  simp only [clockText, List.length_append, List.length_cons,
    length_twoDigits hm.1 (by omega : m < 100), length_twoDigits hs.1 (by omega : s < 100)]
  omega

end

/-- The CPU time in seconds. -/
def ProcInfo.cpuSeconds (sys : System) (info : ProcInfo) : ℤ :=
  (info.putime.toNat + info.pstime.toNat : ℤ) / sys.clkTck

/-- The CPU time is reported in the form `h:mm:ss`, whole and exact. -/
def CpuTimeExact (sys : System) (info : ProcInfo) : Prop :=
  ∃ h m s : ℤ, 0 ≤ h ∧ (0 ≤ m ∧ m < 60) ∧ (0 ≤ s ∧ s < 60) ∧
    ProcOption.cpuTime.reported sys info = .ok (clockText h m s) ∧
    3600*h+60*m+s = info.cpuSeconds sys

/-- The seconds in the `int`, and the twelve bytes printed of them. -/
theorem ProcOption.reported_cpuTime {sys : System} {info : ProcInfo}
    (h : info.putime.toNat + info.pstime.toNat < 2^63) :
    cpuTime.reported sys info = .ok ((clockText ((asInt (info.cpuSeconds sys)).tdiv 3600)
      (((asInt (info.cpuSeconds sys)).tmod 3600).tdiv 60)
      (((asInt (info.cpuSeconds sys)).tmod 3600).tmod 60)).take 12) := by
  have hsum : (info.pstime + info.putime).toNat = info.putime.toNat + info.pstime.toNat := by
    rw [UInt64.toNat_add]
    omega
  have hsec : (asLong (info.pstime + info.putime).toNat).tdiv sys.clkTck = info.cpuSeconds sys := by
    rw [hsum, asLong_of_lt (by omega) (by omega), Int.tdiv_eq_ediv_of_nonneg (by omega),
      ProcInfo.cpuSeconds]
    push_cast
    rfl
  rw [reported_eq, text_cpuTime, readETime, hsec]
  rfl

section
variable {sys : System} {info : ProcInfo}

theorem ProcInfo.cpuSeconds_nonneg : 0 ≤ info.cpuSeconds sys :=
  Int.ediv_nonneg (by omega) sys.clkTck_pos.le

/-- Seconds that are not negative in the `int` are printed whole. -/
theorem clockText_whole {sec : ℤ} (h0 : 0 ≤ sec) (h : sec < 2^31) :
    (clockText (sec.tdiv 3600) ((sec.tmod 3600).tdiv 60) ((sec.tmod 3600).tmod 60)).take 12 =
      clockText (sec/3600) (sec % 3600/60) (sec % 3600 % 60) := by
  rw [Int.tmod_eq_emod_of_nonneg h0, Int.tdiv_eq_ediv_of_nonneg h0,
    Int.tdiv_eq_ediv_of_nonneg (by omega), Int.tmod_eq_emod_of_nonneg (by omega)]
  exact List.take_of_length_le (length_clockText (by omega) (by omega) (by omega) (by omega))

/-- Negative ones leave a sign. -/
theorem minus_mem_of_neg {sec : ℤ} (h : sec < 0) :
    '-' ∈ (clockText (sec.tdiv 3600) ((sec.tmod 3600).tdiv 60) ((sec.tmod 3600).tmod 60)).take 12 := by
  obtain ⟨k,rfl⟩ : ∃ k, sec = -k := ⟨-sec,(neg_neg sec).symm⟩
  have hk : 0 ≤ k := by omega
  have hk' : 0 ≤ k % 3600 := by omega
  simp only [Int.neg_tdiv, Int.neg_tmod, Int.tdiv_eq_ediv_of_nonneg hk,
    Int.tmod_eq_emod_of_nonneg hk, Int.tdiv_eq_ediv_of_nonneg hk', Int.tmod_eq_emod_of_nonneg hk']
  exact minus_mem_clockText (by omega) (by omega) (by omega) (by omega)

/-- The CPU time is exact exactly when its seconds fit the `int`. -/
theorem cpuTimeExact_iff (h : info.putime.toNat + info.pstime.toNat < 2^63) :
    CpuTimeExact sys info ↔ info.cpuSeconds sys < 2^31 := by
  have hq := @ProcInfo.cpuSeconds_nonneg sys info
  obtain ⟨hlow,hhigh⟩ := asInt_range (info.cpuSeconds sys)
  rw [CpuTimeExact, ProcOption.reported_cpuTime h]
  constructor
  · rintro ⟨hh,m,s,hh0,hm,hs,ht,hv⟩
    have htext := Except.ok.inj ht
    by_cases hneg : asInt (info.cpuSeconds sys) < 0
    · have hmem := minus_mem_of_neg hneg
      rw [htext] at hmem
      exact absurd hmem (minus_notMem_clockText hh0 hm.1 hs.1)
    · rw [clockText_whole (by omega) hhigh] at htext
      obtain ⟨h1,h2,h3⟩ := clockText_inj (by omega) (by omega) (by omega) hh0 hm.1 hs.1 htext
      omega
  · intro hlt
    have hint : asInt (info.cpuSeconds sys) = info.cpuSeconds sys := asInt_of_lt (by omega) hlt
    rw [hint, clockText_whole hq hlt]
    exact ⟨_,_,_,by omega,by omega,by omega,rfl,by omega⟩

end

/-- The first second that is too many. -/
theorem not_cpuTimeExact : ¬ CpuTimeExact default
    { (default : ProcInfo) with putime := 214748364800, pstime := 0 } := by
  rintro ⟨h,m,s,hh,hm,hs,ht,_⟩
  have htext : ProcOption.cpuTime.reported default
      { (default : ProcInfo) with putime := 214748364800, pstime := 0 } =
        .ok "-596523:-14:".toList := by decide +kernel
  have hno := minus_notMem_clockText hh hm.1 hs.1
  rw [← Except.ok.inj (htext.symm.trans ht)] at hno
  exact hno (by decide)

/-- An hour, two minutes and three seconds at a hundred ticks. -/
theorem cpuTimeExact_hour : CpuTimeExact default
    { (default : ProcInfo) with putime := 372300, pstime := 50 } :=
  (cpuTimeExact_iff (by decide)).mpr (by decide)

end Cphf
