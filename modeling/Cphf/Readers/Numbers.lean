import Cphf.Readers.Options

/-! The integers the readers report: one formatter takes them all as 32-bit words, so a number
is reported in full exactly when it fits one. -/
namespace Cphf
open CLib

/-- The member an integer option of `FileStatReader` reports. -/
def FileOption.number (stat : Stat) : FileOption → Option ℤ
  | .inode => some stat.st_ino.toNat
  | .size => some stat.st_size
  | .uid => some stat.st_uid.toNat
  | .gid => some stat.st_gid.toNat
  | _ => none

/-- The member an integer option of `ProcReader` reports. -/
def ProcOption.number (info : ProcInfo) : ProcOption → Option ℤ
  | .vms => some info.vms.toNat
  | .rms => some info.rss.toNat
  | .ppid => some info.ppid.toNat
  | .procgid => some info.procgid.toNat
  | _ => none

theorem asUInt32_toUInt64 (x : UInt64) : asUInt32 x.toNat = x.toUInt32 := by
  have h := x.toNat_lt
  apply UInt32.toNat_inj.mp
  rw [toNat_asUInt32, UInt64.toNat_toUInt32]
  omega

/-- A number is printed in full exactly when the parameter of the formatter holds it. -/
theorem format_asUInt32_eq_iff {v : ℤ} :
    Cphf.format (asUInt32 v) = signedDecimal v ↔ 0 ≤ v ∧ v < 2^32 := by
  unfold Cphf.format
  rw [toNat_asUInt32]
  constructor
  · intro h
    by_cases hv : v < 0
    · rw [signedDecimal, if_pos hv] at h
      have hm : '-' ∈ decimal (v % 2^32).toNat := by
        rw [h]
        exact List.mem_cons_self
      exact absurd (isDigit_of_mem_decimal hm) (by decide)
    · rw [signedDecimal, if_neg hv] at h
      have := decimal_injective h
      omega
  · rintro ⟨h0,h⟩
    rw [signedDecimal, if_neg (by omega)]
    congr 1
    omega

/-- Two numbers are printed alike exactly when they agree modulo `2^32`. -/
theorem format_asUInt32_inj {v w : ℤ} :
    Cphf.format (asUInt32 v) = Cphf.format (asUInt32 w) ↔ v % 2^32 = w % 2^32 := by
  unfold Cphf.format
  rw [decimal_injective.eq_iff, toNat_asUInt32, toNat_asUInt32]
  omega

theorem FileOption.read_number {sys : System} {path : Text} {stat : Stat} {o : FileOption} {v : ℤ}
    (h : o.number stat = some v) : o.read sys path stat = .ok (Cphf.format (asUInt32 v)) := by
  cases o with
  | inode => cases h; rw [asUInt32_toUInt64]; rfl
  | size => cases h; rfl
  | uid => cases h; rw [asUInt32_toNat]; rfl
  | gid => cases h; rw [asUInt32_toNat]; rfl
  | name | uname | gname | mode | accessT | modT | statChangeT | device | perms => cases h

theorem ProcOption.text_number {sys : System} {info : ProcInfo} {o : ProcOption} {v : ℤ}
    (h : o.number info = some v) : o.text sys info = .ok (Cphf.format (asUInt32 v)) := by
  cases o with
  | vms => cases h; rw [asUInt32_toUInt64]; rfl
  | rms => cases h; rw [asUInt32_toUInt64]; rfl
  | ppid => cases h; rw [asUInt32_toNat]; rfl
  | procgid => cases h; rw [asUInt32_toNat]; rfl
  | command | username | uid | ugidName | ugid | startTime | cpuTime | state | device | memText
  | memData | memStack | instPtr | perms => cases h

/-- The string `FileStatReader::processOpiton` returns for an option. -/
def FileOption.reported (sys : System) (path : Text) (stat : Stat) (o : FileOption) :
    Except Fault Text := Prod.snd <$> FileStatReader.processOpiton sys o.char path stat

/-- The string `ProcReader::processOpiton` returns for an option. -/
def ProcOption.reported (sys : System) (info : ProcInfo) (o : ProcOption) : Except Fault Text :=
  (fun r => r.1.2) <$> ProcReader.processOpiton sys o.char info

theorem FileOption.reported_number {sys : System} {path : Text} {stat : Stat} {o : FileOption}
    {v : ℤ} (h : o.number stat = some v) :
    o.reported sys path stat = .ok (Cphf.format (asUInt32 v)) := by
  have hi : ∃ i, o.attribID = some i := by cases o <;> first | exact ⟨_,rfl⟩ | cases h
  obtain ⟨i,hi⟩ := hi
  have hp : FileStatReader.processOpiton sys o.char path stat =
      .ok (i,Cphf.format (asUInt32 v)) :=
    (FileStatReader.processOpiton_eq_ok sys path stat).mpr ⟨o,rfl,hi,read_number h⟩
  rw [reported, hp]
  rfl

theorem ProcOption.reported_eq (sys : System) (info : ProcInfo) (o : ProcOption) :
    o.reported sys info = o.text sys info := by
  rw [reported, ProcReader.processOpiton, ofChar_char]
  dsimp only
  rw [o.read_eq sys info]
  cases o.text sys info <;> rfl

theorem ProcOption.reported_number {sys : System} {info : ProcInfo} {o : ProcOption} {v : ℤ}
    (h : o.number info = some v) : o.reported sys info = .ok (Cphf.format (asUInt32 v)) := by
  rw [reported_eq, text_number h]

/-- The numbers of a file and of a process are all reported in full. -/
structure NumbersExact (sys : System) (path : Text) (stat : Stat) (info : ProcInfo) : Prop where
  file : ∀ o v, FileOption.number stat o = some v →
    o.reported sys path stat = .ok (signedDecimal v)
  proc : ∀ o v, ProcOption.number info o = some v → o.reported sys info = .ok (signedDecimal v)

/-- Different numbers of two files and of two processes are reported differently. -/
structure NumbersApart (sys : System) (path path' : Text) (stat stat' : Stat)
    (info info' : ProcInfo) : Prop where
  file : ∀ o v w, FileOption.number stat o = some v → o.number stat' = some w →
    o.reported sys path stat = o.reported sys path' stat' → v = w
  proc : ∀ o v w, ProcOption.number info o = some v → o.number info' = some w →
    o.reported sys info = o.reported sys info' → v = w

/-- The four 64-bit members fit the formatter. -/
structure NumbersShort (stat : Stat) (info : ProcInfo) : Prop where
  inode : stat.st_ino.toNat < 2^32
  size : 0 ≤ stat.st_size ∧ stat.st_size < 2^32
  vms : info.vms.toNat < 2^32
  rss : info.rss.toNat < 2^32

/-- The four 64-bit members agree modulo `2^32` only when they agree. -/
structure NumbersDistinct (stat stat' : Stat) (info info' : ProcInfo) : Prop where
  inode : stat.st_ino.toUInt32 = stat'.st_ino.toUInt32 → stat.st_ino = stat'.st_ino
  size : stat.st_size % 2^32 = stat'.st_size % 2^32 → stat.st_size = stat'.st_size
  vms : info.vms.toUInt32 = info'.vms.toUInt32 → info.vms = info'.vms
  rss : info.rss.toUInt32 = info'.rss.toUInt32 → info.rss = info'.rss

section
variable {sys : System} {v w : ℤ}

lemma FileOption.reported_exact {path : Text} {stat : Stat} {o : FileOption}
    (hv : o.number stat = some v) :
    o.reported sys path stat = .ok (signedDecimal v) ↔ 0 ≤ v ∧ v < 2^32 := by
  rw [reported_number hv, Except.ok.injEq, format_asUInt32_eq_iff]

lemma ProcOption.reported_exact {info : ProcInfo} {o : ProcOption} (hv : o.number info = some v) :
    o.reported sys info = .ok (signedDecimal v) ↔ 0 ≤ v ∧ v < 2^32 := by
  rw [reported_number hv, Except.ok.injEq, format_asUInt32_eq_iff]

lemma FileOption.reported_alike {path path' : Text} {stat stat' : Stat} {o : FileOption}
    (hv : o.number stat = some v) (hw : o.number stat' = some w) :
    o.reported sys path stat = o.reported sys path' stat' ↔ v % 2^32 = w % 2^32 := by
  rw [reported_number hv, reported_number hw, Except.ok.injEq, format_asUInt32_inj]

lemma ProcOption.reported_alike {info info' : ProcInfo} {o : ProcOption}
    (hv : o.number info = some v) (hw : o.number info' = some w) :
    o.reported sys info = o.reported sys info' ↔ v % 2^32 = w % 2^32 := by
  rw [reported_number hv, reported_number hw, Except.ok.injEq, format_asUInt32_inj]

end

/-- Words that the formatter tells apart, as numbers. -/
lemma toUInt32_apart_iff {x y : UInt64} : (x.toUInt32 = y.toUInt32 → x = y) ↔
    ((x.toNat : ℤ) % 2^32 = (y.toNat : ℤ) % 2^32 → (x.toNat : ℤ) = y.toNat) := by
  have hword : x.toUInt32 = y.toUInt32 ↔ (x.toNat : ℤ) % 2^32 = (y.toNat : ℤ) % 2^32 := by
    rw [← UInt32.toNat_inj, UInt64.toNat_toUInt32, UInt64.toNat_toUInt32]
    omega
  rw [hword, ← UInt64.toNat_inj, Nat.cast_inj]

theorem numbersExact_iff_short (sys : System) (path : Text) (stat : Stat) (info : ProcInfo) :
    NumbersExact sys path stat info ↔ NumbersShort stat info := by
  constructor
  · rintro ⟨hf,hp⟩
    have hi := (FileOption.reported_exact rfl).mp (hf .inode _ rfl)
    have hs := (FileOption.reported_exact rfl).mp (hf .size _ rfl)
    have hv := (ProcOption.reported_exact rfl).mp (hp .vms _ rfl)
    have hr := (ProcOption.reported_exact rfl).mp (hp .rms _ rfl)
    exact ⟨by omega,hs,by omega,by omega⟩
  · intro h
    constructor
    · intro o v hv
      rw [FileOption.reported_exact hv]
      have hu := stat.st_uid.toNat_lt
      have hg := stat.st_gid.toNat_lt
      cases o with
      | inode => cases hv; exact ⟨by omega,by exact_mod_cast h.inode⟩
      | size => cases hv; exact h.size
      | uid => cases hv; omega
      | gid => cases hv; omega
      | name | uname | gname | mode | accessT | modT | statChangeT | device | perms => cases hv
    · intro o v hv
      rw [ProcOption.reported_exact hv]
      have hp := info.ppid.toNat_lt
      have hg := info.procgid.toNat_lt
      cases o with
      | vms => cases hv; exact ⟨by omega,by exact_mod_cast h.vms⟩
      | rms => cases hv; exact ⟨by omega,by exact_mod_cast h.rss⟩
      | ppid => cases hv; omega
      | procgid => cases hv; omega
      | command | username | uid | ugidName | ugid | startTime | cpuTime | state | device | memText
      | memData | memStack | instPtr | perms => cases hv

theorem numbersApart_iff_distinct (sys : System) (path path' : Text) (stat stat' : Stat)
    (info info' : ProcInfo) : NumbersApart sys path path' stat stat' info info' ↔
      NumbersDistinct stat stat' info info' := by
  constructor
  · rintro ⟨hf,hp⟩
    constructor
    · apply toUInt32_apart_iff.mpr
      intro h
      exact hf .inode _ _ rfl rfl ((FileOption.reported_alike rfl rfl).mpr h)
    · intro h
      exact hf .size _ _ rfl rfl ((FileOption.reported_alike rfl rfl).mpr h)
    · apply toUInt32_apart_iff.mpr
      intro h
      exact hp .vms _ _ rfl rfl ((ProcOption.reported_alike rfl rfl).mpr h)
    · apply toUInt32_apart_iff.mpr
      intro h
      exact hp .rms _ _ rfl rfl ((ProcOption.reported_alike rfl rfl).mpr h)
  · intro h
    constructor
    · intro o v w hv hw hr
      rw [FileOption.reported_alike hv hw] at hr
      have hu := stat.st_uid.toNat_lt
      have hu' := stat'.st_uid.toNat_lt
      have hg := stat.st_gid.toNat_lt
      have hg' := stat'.st_gid.toNat_lt
      cases o with
      | inode => cases hv; cases hw; exact toUInt32_apart_iff.mp h.inode hr
      | size => cases hv; cases hw; exact h.size hr
      | uid => cases hv; cases hw; omega
      | gid => cases hv; cases hw; omega
      | name | uname | gname | mode | accessT | modT | statChangeT | device | perms => cases hv
    · intro o v w hv hw hr
      rw [ProcOption.reported_alike hv hw] at hr
      have hp := info.ppid.toNat_lt
      have hp' := info'.ppid.toNat_lt
      have hg := info.procgid.toNat_lt
      have hg' := info'.procgid.toNat_lt
      cases o with
      | vms => cases hv; cases hw; exact toUInt32_apart_iff.mp h.vms hr
      | rms => cases hv; cases hw; exact toUInt32_apart_iff.mp h.rss hr
      | ppid => cases hv; cases hw; omega
      | procgid => cases hv; cases hw; omega
      | command | username | uid | ugidName | ugid | startTime | cpuTime | state | device | memText
      | memData | memStack | instPtr | perms => cases hv

/-- The numbers of a file and of a process are reported in full exactly when the 64-bit ones are
below `2^32`, and those of two are told apart exactly when they differ modulo `2^32`. -/
theorem numbersExact_iff (sys : System) (path path' : Text) (stat stat' : Stat)
    (info info' : ProcInfo) : (NumbersExact sys path stat info ↔ NumbersShort stat info) ∧
    (NumbersApart sys path path' stat stat' info info' ↔
      NumbersDistinct stat stat' info info') :=
  ⟨numbersExact_iff_short sys path stat info,
    numbersApart_iff_distinct sys path path' stat stat' info info'⟩

/-- A file of 4 GiB is reported like an empty one. -/
theorem not_numbersExact_4GiB :
    ¬ NumbersExact default [] { (default : Stat) with st_size := 2^32 } default ∧
    ¬ NumbersApart default [] [] { (default : Stat) with st_size := 2^32 } default default
      default := by
  constructor
  · intro h
    have hr := h.file .size (2^32) rfl
    exact absurd (Except.ok.inj hr) (by decide)
  · intro h
    have hr := h.file .size (2^32) 0 rfl rfl rfl
    exact absurd hr (by decide)

end Cphf
