import Cphf.Readers.Times

/-! When a process started. `readTime` takes the boot for the whole seconds of the clock less the
whole seconds of the uptime, which is a second too late while the clock's fraction is below the
boot's. -/
namespace Cphf
open CLib

/-- Whole seconds of two instants and of the time between them. -/
theorem floor_sub_floor {α : Type*} [Field α] [LinearOrder α] [IsStrictOrderedRing α] [FloorRing α]
    (a b : α) : ⌊a⌋ - ⌊a - b⌋ = ⌊b⌋ + if Int.fract a < Int.fract b then 1 else 0 := by
  have ha := Int.fract_nonneg a
  have hb := Int.fract_nonneg b
  have ha1 := Int.fract_lt_one a
  have hb1 := Int.fract_lt_one b
  have hsub : a - b = ((⌊a⌋ - ⌊b⌋ : ℤ) : α) + (Int.fract a - Int.fract b) := by
    rw [Int.fract, Int.fract]
    push_cast
    ring
  rw [hsub, Int.floor_intCast_add]
  split_ifs with h
  · have hf : ⌊Int.fract a - Int.fract b⌋ = -1 := by
      apply Int.floor_eq_iff.mpr
      push_cast
      constructor <;> linarith
    omega
  · have hf : ⌊Int.fract a - Int.fract b⌋ = 0 := by
      apply Int.floor_eq_iff.mpr
      push_cast
      constructor <;> linarith
    omega

/-- The text of a start time is that of the second computed, if there is one. -/
theorem ProcOption.text_startSecond (sys : System) (i : ProcInfo) :
    startTime.text sys i = (i.startSecond sys).elim (.ok "ERROR READING TIME".toList)
      (readLocalTime sys · CPHF_FORMAT_DATE_TIME) := by
  rw [text_startTime]
  unfold readStartTime ProcInfo.startSecond
  cases timeSinceBoot sys <;> rfl

/-- A second more is another value of 64 bits. -/
lemma asLong_carry_iff (v : ℤ) (p q : Prop) [Decidable p] [Decidable q] :
    asLong (v + if p then 1 else 0) = asLong (v + if q then 1 else 0) ↔ (p ↔ q) := by
  have hne : asLong (v + 1) ≠ asLong v := by
    unfold asLong
    rw [Int.bmod_def, Int.bmod_def]
    split_ifs <;> omega
  split_ifs with hp hq hq
  · simp [hp, hq]
  · simp [hp, hq, hne]
  · simp [hp, hq, hne.symm]
  · simp [hp, hq]

/-- What the clocks of a system booted at one instant show at another; `time_t` holds them. -/
structure ReadAt (sys : System) (boot now : ℚ) : Prop where
  time : sys.time = ⌊now⌋
  uptime : ∃ rest, sys.file "/proc/uptime".toList =
    some (decimal ⌊now - boot⌋.toNat ++ '.' :: rest)
  booted : boot ≤ now
  boot_ge : -2^63 ≤ ⌊boot⌋
  time_lt : ⌊now⌋ < 2^63
  uptime_lt : ⌊now - boot⌋ < 2^63

/-- A process has started by then, so many ticks after the boot. -/
def Started (sys : System) (boot now : ℚ) (i : ProcInfo) : Prop :=
  (i.starttime.toNat : ℚ)/sys.clkTck ≤ now - boot

section
variable {sys : System} {boot now : ℚ}

theorem ReadAt.timeSinceBoot (h : ReadAt sys boot now) :
    timeSinceBoot sys = some ⌊now - boot⌋ := by
  obtain ⟨rest,hfile⟩ := h.uptime
  have hnonneg : 0 ≤ ⌊now - boot⌋ := Int.floor_nonneg.mpr (sub_nonneg.mpr h.booted)
  have hlt := h.uptime_lt
  have hread := @extractSigned_field [] (by simp [Blanks]) ⌊now - boot⌋.toNat (by omega)
    ('.' :: rest) (by simp)
  rw [List.nil_append] at hread
  rw [Cphf.timeSinceBoot, hfile, Option.bind_some, hread, Option.map_some, Int.toNat_of_nonneg hnonneg]

theorem Started.ticks_le {i : ProcInfo} (h : Started sys boot now i) :
    (i.starttime.toNat : ℤ)/sys.clkTck ≤ ⌊now - boot⌋ := by
  have hz : (0 : ℚ) < sys.clkTck := by exact_mod_cast sys.clkTck_pos
  apply Int.le_floor.mpr
  apply le_trans _ h
  rw [le_div_iff₀ hz]
  exact_mod_cast Int.ediv_mul_le (i.starttime.toNat : ℤ) sys.clkTck_pos.ne'

theorem Started.of_le {a b : ProcInfo} (h : Started sys boot now b) (hab : a.starttime ≤ b.starttime) :
    Started sys boot now a := by
  have hz : (0 : ℚ) < sys.clkTck := by exact_mod_cast sys.clkTck_pos
  have hle : a.starttime.toNat ≤ b.starttime.toNat := UInt64.le_iff_toNat_le.mp hab
  apply le_trans _ h
  gcongr

/-- The start is reckoned from the second of the boot or from the next one. -/
theorem ReadAt.startSecond (h : ReadAt sys boot now) (i : ProcInfo) : i.startSecond sys =
    some (asLong (⌊boot⌋ + (asLong i.starttime.toNat).tdiv sys.clkTck +
      if Int.fract now < Int.fract boot then 1 else 0)) := by
  rw [ProcInfo.startSecond, h.timeSinceBoot, Option.map_some, h.time, floor_sub_floor, add_right_comm]

/-- The sum fits as it is, unless it is of a boot before 1970 and of ticks that came out negative. -/
theorem ReadAt.startSecond_of_started (h : ReadAt sys boot now) {i : ProcInfo}
    (hi : Started sys boot now i) (hsafe : i.starttime.toNat < 2^63 ∨ 0 ≤ ⌊boot⌋) :
    i.startSecond sys = some (⌊boot⌋ + (asLong i.starttime.toNat).tdiv sys.clkTck +
      if Int.fract now < Int.fract boot then 1 else 0) := by
  have hle := hi.ticks_le
  have hfloor := floor_sub_floor now boot
  have hb := h.boot_ge
  have hn := h.time_lt
  have hup : 0 ≤ ⌊now - boot⌋ := Int.floor_nonneg.mpr (sub_nonneg.mpr h.booted)
  have hcarry : 0 ≤ (if Int.fract now < Int.fract boot then 1 else 0 : ℤ) := by
    split_ifs <;> decide
  have hbounds : -2^63 ≤ ⌊boot⌋ + (asLong i.starttime.toNat).tdiv sys.clkTck ∧
      (asLong i.starttime.toNat).tdiv sys.clkTck ≤ ⌊now - boot⌋ := by
    by_cases hlt : i.starttime.toNat < 2^63
    · have hnonneg : 0 ≤ (i.starttime.toNat : ℤ)/sys.clkTck :=
        Int.ediv_nonneg (by omega) sys.clkTck_pos.le
      rw [asLong_of_lt (by omega) (by omega), Int.tdiv_eq_ediv_of_nonneg (by omega)]
      omega
    · have hboot := hsafe.resolve_left hlt
      have hneg : -2^63 ≤ asLong i.starttime.toNat ∧ asLong i.starttime.toNat ≤ 0 := by
        have := i.starttime.toNat_lt
        unfold asLong
        rw [Int.bmod_def]
        split_ifs <;> omega
      have hnonpos := Int.tdiv_nonneg (Int.neg_nonneg_of_nonpos hneg.2) sys.clkTck_pos.le
      rw [Int.neg_tdiv] at hnonpos
      have habs := Int.natAbs_tdiv_le_natAbs (asLong i.starttime.toNat) sys.clkTck
      omega
  rw [h.startSecond, asLong_of_lt (by omega) (by omega)]

/-- Below 2^63 the ticks are not narrowed, and their seconds are in order. -/
theorem startTicks_le (hz : 0 < sys.clkTck) {a b : ProcInfo} (hab : a.starttime ≤ b.starttime)
    (hlt : b.starttime.toNat < 2^63) : (asLong a.starttime.toNat).tdiv sys.clkTck ≤
      (asLong b.starttime.toNat).tdiv sys.clkTck := by
  have hle : a.starttime.toNat ≤ b.starttime.toNat := UInt64.le_iff_toNat_le.mp hab
  rw [asLong_of_lt (by omega) (by omega), asLong_of_lt (by omega) (by omega),
    Int.tdiv_eq_ediv_of_nonneg (by omega), Int.tdiv_eq_ediv_of_nonneg (by omega)]
  exact Int.ediv_le_ediv hz (by exact_mod_cast hle)

end

/-- Two reads of a system report each of two processes with the same second, and with the same
text under one calendar; and the first of them never with a later second than the other one,
whichever is read first. -/
structure StartsAgree (sys sys' : System) (a b : ProcInfo) : Prop where
  same : ∀ i ∈ [a,b], i.startSecond sys = i.startSecond sys'
  shown : sys.localtime = sys'.localtime → ∀ i ∈ [a,b],
    ProcOption.startTime.text sys i = ProcOption.startTime.text sys' i
  ordered : ∀ x ∈ a.startSecond sys, ∀ y ∈ b.startSecond sys', x ≤ y
  ordered' : ∀ x ∈ a.startSecond sys', ∀ y ∈ b.startSecond sys, x ≤ y

section
variable {sys sys' : System} {boot now now' : ℚ}

/-- Two reads compute one second exactly when the fraction of the clock is on the same side of the
boot's at both, whatever the ticks. -/
theorem startSecond_same_iff (h : ReadAt sys boot now) (h' : ReadAt sys' boot now')
    (hz : sys'.clkTck = sys.clkTck) (i : ProcInfo) : i.startSecond sys = i.startSecond sys' ↔
      (Int.fract now < Int.fract boot ↔ Int.fract now' < Int.fract boot) := by
  rw [h.startSecond, h'.startSecond, hz, Option.some_inj, asLong_carry_iff]

lemma startSecond_le_iff (h : ReadAt sys boot now) (h' : ReadAt sys' boot now')
    (hz : sys'.clkTck = sys.clkTck)
    (hphase : Int.fract now < Int.fract boot ↔ Int.fract now' < Int.fract boot) {a b : ProcInfo}
    (hsafe : b.starttime.toNat < 2^63 ∨ 0 ≤ ⌊boot⌋) (hab : a.starttime ≤ b.starttime)
    (ha : Started sys boot now a) (hb : Started sys' boot now' b) :
    (∀ x ∈ a.startSecond sys, ∀ y ∈ b.startSecond sys', x ≤ y) ↔
      (asLong a.starttime.toNat).tdiv sys.clkTck ≤ (asLong b.starttime.toNat).tdiv sys.clkTck := by
  have hle : a.starttime.toNat ≤ b.starttime.toNat := UInt64.le_iff_toNat_le.mp hab
  rw [h.startSecond_of_started ha (hsafe.imp_left fun hlt => by omega),
    h'.startSecond_of_started hb hsafe, if_congr hphase rfl rfl, hz]
  simp

/-- The reads of two processes agree exactly when the fraction of the clock is on the same side of
the boot's at both, and the ticks are in order as they are narrowed, which they are below 2^63. The
second of one process needs the former only. -/
theorem startsAgree_iff (h : ReadAt sys boot now) (h' : ReadAt sys' boot now')
    (hz : sys'.clkTck = sys.clkTck) :
    (∀ i : ProcInfo, i.startSecond sys = i.startSecond sys' ↔
      (Int.fract now < Int.fract boot ↔ Int.fract now' < Int.fract boot)) ∧
    (∀ a b : ProcInfo, a.starttime ≤ b.starttime → Started sys boot now b →
      Started sys' boot now' b → b.starttime.toNat < 2^63 ∨ 0 ≤ ⌊boot⌋ →
        (StartsAgree sys sys' a b ↔
          (Int.fract now < Int.fract boot ↔ Int.fract now' < Int.fract boot) ∧
          (asLong a.starttime.toNat).tdiv sys.clkTck ≤
            (asLong b.starttime.toNat).tdiv sys.clkTck)) ∧
    ∀ a b : ProcInfo, a.starttime ≤ b.starttime → b.starttime.toNat < 2^63 →
      (asLong a.starttime.toNat).tdiv sys.clkTck ≤
        (asLong b.starttime.toNat).tdiv sys.clkTck := by
  refine ⟨startSecond_same_iff h h' hz,fun a b hab hb hb' hsafe => ?_,
    fun a b => startTicks_le sys.clkTck_pos⟩
  have ha : Started sys boot now a := hb.of_le hab
  have ha' : Started sys' boot now' a := hb'.of_le hab
  constructor
  · intro hagree
    have hphase := (startSecond_same_iff h h' hz a).mp (hagree.same a List.mem_cons_self)
    exact ⟨hphase,(startSecond_le_iff h h' hz hphase hsafe hab ha hb').mp hagree.ordered⟩
  · rintro ⟨hphase,hticks⟩
    have hsame : ∀ i : ProcInfo, i.startSecond sys = i.startSecond sys' :=
      fun i => (startSecond_same_iff h h' hz i).mpr hphase
    refine ⟨fun i _ => hsame i,fun hlocal i _ => ?_,?_,?_⟩
    · rw [ProcOption.text_startSecond, ProcOption.text_startSecond, hsame]
      simp only [readLocalTime, hlocal]
    · exact (startSecond_le_iff h h' hz hphase hsafe hab ha hb').mpr hticks
    · rw [← hz] at hticks
      exact (startSecond_le_iff h' h hz.symm hphase.symm hsafe hab ha' hb).mpr hticks

end

-- From 2^63 ticks on a start is taken for one before the boot.
example :
    let sys := { (default : System) with
      time := 2^57
      file := fun path => if path = "/proc/uptime".toList then
        some "144115188075855872.00 0.00\n".toList else none }
    { (default : ProcInfo) with starttime := 2^63-1 }.startSecond sys = some 92233720368547758 ∧
      { (default : ProcInfo) with starttime := 2^63 }.startSecond sys =
        some (-92233720368547758) := by decide +kernel

/-- A system booted at one instant, as it is at another. -/
def runningAt (boot now : ℚ) : System :=
  { (default : System) with
    time := ⌊now⌋
    file := fun path => if path = "/proc/uptime".toList then
      some (decimal ⌊now - boot⌋.toNat ++ '.' :: "00 0.00\n".toList) else none }

lemma readAt_runningAt {boot now : ℚ} (hle : boot ≤ now) (hboot : -2^63 ≤ ⌊boot⌋)
    (hnow : ⌊now⌋ < 2^63) (hup : ⌊now - boot⌋ < 2^63) : ReadAt (runningAt boot now) boot now := by
  refine ⟨rfl,?_,hle,hboot,hnow,hup⟩
  dsimp only [runningAt]
  exact ⟨_,if_pos rfl⟩

/-- A process that started so many ticks after the boot. -/
def startedAfter (ticks : UInt64) : ProcInfo := { (default : ProcInfo) with starttime := ticks }

section
variable {boot now : ℚ}

lemma started_startedAfter {ticks : UInt64} {n : ℕ} (hn : ticks.toNat = n)
    (h : (n : ℚ)/100 ≤ now - boot) : Started (runningAt boot now) boot now (startedAfter ticks) := by
  change (ticks.toNat : ℚ)/((100 : ℤ) : ℚ) ≤ now - boot
  rwa [hn, Int.cast_ofNat]

lemma startSecond_startedAfter (h : ReadAt (runningAt boot now) boot now) (ticks : UInt64) {b : ℤ}
    (hb : ⌊boot⌋ = b) : (startedAfter ticks).startSecond (runningAt boot now) =
      some (asLong (b + (asLong ticks.toNat).tdiv 100 +
        if Int.fract now < Int.fract boot then 1 else 0)) :=
  hb ▸ h.startSecond (startedAfter ticks)

end

/-- The middle of the first second of July 2015. -/
def julyBoot : ℚ := 1435708800 + 1/2

lemma readAt_july {now : ℚ} (hle : julyBoot ≤ now) (hnow : now < 2^32) :
    ReadAt (runningAt julyBoot now) julyBoot now := by
  have hboot : ⌊julyBoot⌋ = 1435708800 := by norm_num [julyBoot]
  have hlt : ⌊now⌋ < 2^32 := Int.floor_lt.mpr (by exact_mod_cast hnow)
  have hup : ⌊now - julyBoot⌋ ≤ ⌊now⌋ := Int.floor_le_floor (by norm_num [julyBoot])
  exact readAt_runningAt hle (by omega) (by omega) (by omega)

/-- Read twice on whole seconds, a minute apart. -/
theorem startsAgree_whole :
    StartsAgree (runningAt julyBoot 1435708861) (runningAt julyBoot 1435708921)
      (startedAfter 700) (startedAfter 799) := by
  have h : ReadAt (runningAt julyBoot 1435708861) julyBoot 1435708861 :=
    readAt_july (by norm_num [julyBoot]) (by norm_num)
  have h' : ReadAt (runningAt julyBoot 1435708921) julyBoot 1435708921 :=
    readAt_july (by norm_num [julyBoot]) (by norm_num)
  have hstarted : ∀ {now : ℚ}, 60 ≤ now - julyBoot →
      Started (runningAt julyBoot now) julyBoot now (startedAfter 799) := fun hnow =>
    @started_startedAfter _ _ 799 799 (by decide) (by linarith)
  have hlt : (startedAfter 799).starttime.toNat < 2^63 := by decide
  have hle : (startedAfter 700).starttime ≤ (startedAfter 799).starttime := by decide
  obtain ⟨_,hagree,hticks⟩ := startsAgree_iff h h' rfl
  exact (hagree _ _ hle (hstarted (by norm_num [julyBoot])) (hstarted (by norm_num [julyBoot]))
    (.inl hlt)).mpr ⟨by norm_num [julyBoot],hticks _ _ hle hlt⟩

/-- Half a second later every process starts a second earlier. -/
theorem not_startsAgree_half :
    ReadAt (runningAt julyBoot 1435708861) julyBoot 1435708861 ∧
    ReadAt (runningAt julyBoot (1435708861 + 1/2)) julyBoot (1435708861 + 1/2) ∧
    Started (runningAt julyBoot 1435708861) julyBoot 1435708861 (startedAfter 700) ∧
    (startedAfter 700).startSecond (runningAt julyBoot 1435708861) = some 1435708808 ∧
    (startedAfter 700).startSecond (runningAt julyBoot (1435708861 + 1/2)) = some 1435708807 ∧
    ¬ StartsAgree (runningAt julyBoot 1435708861) (runningAt julyBoot (1435708861 + 1/2))
      (startedAfter 700) (startedAfter 700) := by
  have h : ReadAt (runningAt julyBoot 1435708861) julyBoot 1435708861 :=
    readAt_july (by norm_num [julyBoot]) (by norm_num)
  have h' : ReadAt (runningAt julyBoot (1435708861 + 1/2)) julyBoot (1435708861 + 1/2) :=
    readAt_july (by norm_num [julyBoot]) (by norm_num)
  have hboot : ⌊julyBoot⌋ = 1435708800 := by norm_num [julyBoot]
  have hfirst : (startedAfter 700).startSecond (runningAt julyBoot 1435708861) =
      some 1435708808 := by
    rw [startSecond_startedAfter h _ hboot, if_pos (by norm_num [julyBoot])]
    decide +kernel
  have hsecond : (startedAfter 700).startSecond (runningAt julyBoot (1435708861 + 1/2)) =
      some 1435708807 := by
    rw [startSecond_startedAfter h' _ hboot, if_neg (by norm_num [julyBoot])]
    decide +kernel
  refine ⟨h,h',?_,hfirst,hsecond,fun hagree => ?_⟩
  · exact @started_startedAfter _ _ 700 700 (by decide) (by norm_num [julyBoot])
  · have hsame := hagree.same _ List.mem_cons_self
    rw [hfirst, hsecond] at hsame
    norm_num at hsame

end Cphf
