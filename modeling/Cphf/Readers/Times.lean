import Cphf.Readers.Numbers

/-! The times the readers report: `readTime` gives `strftime` a buffer of 30 bytes, so it depends
on the zone's abbreviation whether the text of a time fits. -/
namespace Cphf
open CLib

/-- `Www Mmm dd, yyyy hh:mm:ss ZONE`. -/
def Tm.dateTime (tm : Tm) : Text :=
  dayName tm.tm_wday ++ ' ' :: monthName tm.tm_mon ++ ' ' :: twoDigits tm.tm_mday ++ ',' :: ' ' ::
    signedDecimal tm.year ++ ' ' :: twoDigits tm.tm_hour ++ ':' :: twoDigits tm.tm_min ++
    ':' :: twoDigits tm.tm_sec ++ ' ' :: c_str tm.zone

def Tm.fourDigitYear (tm : Tm) : Prop := 1000 ≤ tm.year ∧ tm.year ≤ 9999

theorem Tm.formatted_dateTime (tm : Tm) : tm.formatted CPHF_FORMAT_DATE_TIME = tm.dateTime := by
  have h : CPHF_FORMAT_DATE_TIME = ['%','a',' ','%','b',' ','%','d',',',' ','%','Y',' ','%','T',
    ' ','%','Z'] := rfl
  rw [h]
  simp [formatted, expand, dateTime]

theorem length_twoDigits {v : ℤ} (h0 : 0 ≤ v) (h : v < 100) : (twoDigits v).length = 2 := by
  have hle : (decimal v.natAbs).length ≤ 2 :=
    (Nat.length_toDigits_le_iff (by decide) (by decide)).mpr (by omega)
  rw [twoDigits, if_neg (by omega), List.length_append, List.length_replicate]
  omega

theorem Tm.length_year {tm : Tm} (h : tm.fourDigitYear) : (signedDecimal tm.year).length = 4 := by
  obtain ⟨h0,h1⟩ := h
  rw [signedDecimal, if_neg (by omega), decimal]
  have hle := (Nat.length_toDigits_le_iff (b := 10) (n := tm.year.natAbs) (k := 4) (by decide)
    (by decide)).mpr (by omega)
  have hgt := (Nat.length_toDigits_le_iff (b := 10) (n := tm.year.natAbs) (k := 3) (by decide)
    (by decide)).not.mpr (by omega)
  omega

/-- All of the text but the zone takes 26 bytes. -/
theorem Tm.length_dateTime {tm : Tm} (h : tm.fourDigitYear) :
    tm.dateTime.length = 26+(c_str tm.zone).length := by
  have hday : ∀ d, (dayName d).length = 3 := by decide
  have hmonth : ∀ m, (monthName m).length = 3 := by decide
  have hmday := length_twoDigits (v := tm.tm_mday) (by omega) (by omega)
  have hhour := length_twoDigits (v := tm.tm_hour) (by omega) (by omega)
  have hmin := length_twoDigits (v := tm.tm_min) (by omega) (by omega)
  have hsec := length_twoDigits (v := tm.tm_sec) (by omega) (by omega)
  simp only [dateTime, List.length_append, List.length_cons, hday, hmonth, hmday, hhour, hmin, hsec,
    length_year h]
  omega

section
variable {sys : System} {t : ℤ} {tm : Tm}

/-- A time whose zone has at most three bytes is printed whole, and no other. -/
theorem readLocalTime_dateTime (ht : sys.localtime t = some tm) (hyear : tm.fourDigitYear) :
    readLocalTime sys t CPHF_FORMAT_DATE_TIME =
      .ok (if (c_str tm.zone).length ≤ 3 then tm.dateTime else "ERROR READING TIME".toList) := by
  unfold readLocalTime strftime
  rw [ht]
  dsimp only
  rw [tm.formatted_dateTime, Tm.length_dateTime hyear]
  by_cases h : (c_str tm.zone).length ≤ 3
  · rw [if_pos h, if_pos (by omega)]
  · rw [if_neg h, if_neg (by omega)]

theorem readLocalTime_eq_dateTime_iff (ht : sys.localtime t = some tm) (hyear : tm.fourDigitYear) :
    readLocalTime sys t CPHF_FORMAT_DATE_TIME = .ok tm.dateTime ↔ (c_str tm.zone).length ≤ 3 := by
  rw [readLocalTime_dateTime ht hyear]
  split_ifs with h
  · simp [h]
  · simp only [Except.ok.injEq, h, iff_false]
    intro he
    have hlen := Tm.length_dateTime hyear
    rw [← he] at hlen
    have herr : "ERROR READING TIME".toList.length = 18 := rfl
    omega

end

/-- The time stamp an option of `FileStatReader` reports. -/
def FileOption.time (stat : Stat) : FileOption → Option ℤ
  | .accessT => some stat.st_atime
  | .modT => some stat.st_mtime
  | .statChangeT => some stat.st_ctime
  | _ => none

/-- The second a process started, as `ProcReader::readTime` computes it. -/
def ProcInfo.startSecond (sys : System) (info : ProcInfo) : Option ℤ :=
  (timeSinceBoot sys).map fun boot =>
    asLong (sys.time - boot + (asLong info.starttime.toNat).tdiv sys.clkTck)

theorem FileOption.reported_time {sys : System} {path : Text} {stat : Stat} {o : FileOption} {t : ℤ}
    (h : o.time stat = some t) {v : Text} : o.reported sys path stat = .ok v ↔
      readLocalTime sys t CPHF_FORMAT_DATE_TIME = .ok v := by
  have hread : ∃ i, o.attribID = some i ∧
      o.read sys path stat = readLocalTime sys t CPHF_FORMAT_DATE_TIME := by
    cases o with
    | accessT => cases h; exact ⟨_,rfl,rfl⟩
    | modT => cases h; exact ⟨_,rfl,rfl⟩
    | statChangeT => cases h; exact ⟨_,rfl,rfl⟩
    | name | inode | uname | uid | gname | gid | mode | device | size | perms => cases h
  obtain ⟨i,hi,hr⟩ := hread
  rw [reported, FileStatReader.processOpiton, ofChar_char]
  dsimp only
  rw [hr, hi]
  cases readLocalTime sys t CPHF_FORMAT_DATE_TIME <;> simp [Functor.map, Except.map]

theorem ProcOption.reported_startTime {sys : System} {info : ProcInfo} {t : ℤ}
    (h : info.startSecond sys = some t) {v : Text} :
    ProcOption.startTime.reported sys info = .ok v ↔
      readLocalTime sys t CPHF_FORMAT_DATE_TIME = .ok v := by
  obtain ⟨boot,hboot,rfl⟩ := Option.map_eq_some_iff.mp h
  rw [reported, ProcReader.processOpiton, ofChar_char]
  dsimp only
  rw [read_startTime, readStartTime, hboot]
  dsimp only
  cases readLocalTime sys (asLong (sys.time - boot + (asLong info.starttime.toNat).tdiv sys.clkTck))
    CPHF_FORMAT_DATE_TIME <;> simp [Functor.map, Except.map]

/-- A time with a year of four digits is reported whole, of files and of processes, exactly when
its zone's abbreviation has at most three bytes. -/
theorem readTime_whole_iff {sys : System} {t : ℤ} {tm : Tm} (ht : sys.localtime t = some tm)
    (hyear : tm.fourDigitYear) :
    (readLocalTime sys t CPHF_FORMAT_DATE_TIME = .ok tm.dateTime ↔ (c_str tm.zone).length ≤ 3) ∧
    (∀ path stat o, FileOption.time stat o = some t →
      (o.reported sys path stat = .ok tm.dateTime ↔ (c_str tm.zone).length ≤ 3)) ∧
    ∀ info : ProcInfo, info.startSecond sys = some t →
      (ProcOption.startTime.reported sys info = .ok tm.dateTime ↔ (c_str tm.zone).length ≤ 3) := by
  refine ⟨readLocalTime_eq_dateTime_iff ht hyear,fun path stat o ho => ?_,fun info hi => ?_⟩
  · rw [FileOption.reported_time ho, readLocalTime_eq_dateTime_iff ht hyear]
  · rw [ProcOption.reported_startTime hi, readLocalTime_eq_dateTime_iff ht hyear]

/-- A system in that zone, where this is the second of that midnight. -/
def inZone (zone : Text) (midnight : ℤ) : System :=
  { answering with localtime := fun t => if t = midnight then some (july zone) else none }

theorem readTime_whole_utc :
    let sys := inZone "UTC".toList 1435708800
    (readLocalTime sys 1435708800 CPHF_FORMAT_DATE_TIME =
      .ok "Wed Jul 01, 2015 00:00:00 UTC".toList ↔ (c_str "UTC".toList).length ≤ 3) ∧
    (∀ path stat o, FileOption.time stat o = some 1435708800 →
      (o.reported sys path stat = .ok "Wed Jul 01, 2015 00:00:00 UTC".toList ↔
        (c_str "UTC".toList).length ≤ 3)) ∧
    ∀ info : ProcInfo, info.startSecond sys = some 1435708800 →
      (ProcOption.startTime.reported sys info =
        .ok "Wed Jul 01, 2015 00:00:00 UTC".toList ↔ (c_str "UTC".toList).length ≤ 3) :=
  @readTime_whole_iff (inZone "UTC".toList 1435708800) 1435708800 (july "UTC".toList) rfl
    ⟨by decide,by decide⟩

/-- Summer time in central Europe does not fit. -/
theorem readTime_not_whole_cest :
    (inZone "CEST".toList 1435701600).localtime 1435701600 = some (july "CEST".toList) ∧
    readLocalTime (inZone "CEST".toList 1435701600) 1435701600 CPHF_FORMAT_DATE_TIME =
      .ok "ERROR READING TIME".toList := ⟨rfl,by decide +kernel⟩

end Cphf
