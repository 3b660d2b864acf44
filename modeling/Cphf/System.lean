import Cphf.Common

/-! The system the readers ask: one snapshot of its files, links, databases and clocks. -/
namespace Cphf
open CLib

/-- The members of `struct stat` that are read. -/
structure Stat where
  st_dev : UInt64
  st_rdev : UInt64
  st_ino : UInt64
  st_mode : UInt32
  st_uid : UInt32
  st_gid : UInt32
  st_size : ℤ
  st_atime : ℤ
  st_mtime : ℤ
  st_ctime : ℤ
  deriving DecidableEq, Inhabited

structure Passwd where
  pw_name : Text
  pw_uid : UInt32
  deriving DecidableEq

structure Group where
  gr_name : Text
  gr_gid : UInt32
  deriving DecidableEq

/-- The members of `struct tm` that are printed, and the zone's abbreviation. -/
structure Tm where
  tm_wday : Fin 7
  tm_mon : Fin 12
  tm_mday : Fin 32
  tm_hour : Fin 24
  tm_min : Fin 60
  tm_sec : Fin 61
  year : ℤ
  zone : Text
  deriving DecidableEq, Inhabited

/-- A snapshot. A call that fails gives `none`; the answers of `readlink` and of the allocator
may change from one round of `readFileName` to the next. -/
structure System where
  file : Text → Option Text
  stat : Text → Option Stat
  readlink : Text → ℕ → Option Text
  linkMax : ℕ
  readlink_le : ∀ path n t, readlink path n = some t → t.length ≤ linkMax
  allocates : Text → ℕ → Bool
  getpwuid : UInt32 → Option Passwd
  getgrgid : UInt32 → Option Group
  localtime : ℤ → Option Tm
  time : ℤ
  clkTck : ℤ
  clkTck_pos : 0 < clkTck
  clkTck_lt : clkTck < 2^63

/-- Nothing is found in this system, and its allocator grants everything. -/
instance : Inhabited System where
  default :=
    { file := fun _ => none
      stat := fun _ => none
      readlink := fun _ _ => none
      linkMax := 0
      readlink_le := by simp
      allocates := fun _ _ => true
      getpwuid := fun _ => none
      getgrgid := fun _ => none
      localtime := fun _ => none
      time := 0
      clkTck := 100
      clkTck_pos := by decide
      clkTck_lt := by decide }

/-- The first of July 2015 in a zone, midnight. -/
def july (zone : Text) : Tm := ⟨3,6,1,0,0,0,2015,zone⟩

/-- A system with an entry for every user and group and a rendering of every time. -/
def answering : System :=
  { (default : System) with
    stat := fun _ => some default
    getpwuid := fun uid => some ⟨"root".toList,uid⟩
    getgrgid := fun gid => some ⟨"wheel".toList,gid⟩
    localtime := fun _ => some default }

end Cphf
