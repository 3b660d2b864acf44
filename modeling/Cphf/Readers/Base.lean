import Cphf.Store
import Cphf.System
import Cphf.CLib.Runs
import Cphf.CLib.Stream
import Cphf.CLib.Lines

/-! `CPHFReader`: what the readers of processes and of files share. -/
namespace Cphf
open CLib

def CPHF_FORMAT_DATE_TIME : Text := "%a %b %d, %Y %T %Z".toList

def dayName (d : Fin 7) : Text :=
  match d with
  | 0 => "Sun".toList | 1 => "Mon".toList | 2 => "Tue".toList | 3 => "Wed".toList
  | 4 => "Thu".toList | 5 => "Fri".toList | 6 => "Sat".toList

def monthName (m : Fin 12) : Text :=
  match m with
  | 0 => "Jan".toList | 1 => "Feb".toList | 2 => "Mar".toList | 3 => "Apr".toList
  | 4 => "May".toList | 5 => "Jun".toList | 6 => "Jul".toList | 7 => "Aug".toList
  | 8 => "Sep".toList | 9 => "Oct".toList | 10 => "Nov".toList | 11 => "Dec".toList

/-- The conversions of `strftime` the program's format uses, in the C locale. -/
def Tm.expand (tm : Tm) (c : Char) : Text :=
  if c = 'a' then dayName tm.tm_wday
  else if c = 'b' then monthName tm.tm_mon
  else if c = 'd' then twoDigits tm.tm_mday
  else if c = 'Y' then signedDecimal tm.year
  else if c = 'T' then twoDigits tm.tm_hour ++ ':' :: twoDigits tm.tm_min ++ ':' :: twoDigits tm.tm_sec
  else if c = 'Z' then c_str tm.zone
  else []

def Tm.formatted (tm : Tm) : Text → Text
  | [] => []
  | [c] => [c]
  | c :: d :: s => if c = '%' then tm.expand d ++ tm.formatted s else c :: tm.formatted (d :: s)

/-- `strftime`: nothing when the text and its terminator do not fit in `max` bytes. -/
def strftime (max : ℕ) (format : Text) (tm : Tm) : Option Text :=
  if (tm.formatted format).length < max then some (tm.formatted format) else none

/-- `CPHFReader::readTime`; `strftime` is handed whatever `localtime` returned. -/
def readLocalTime (sys : System) (t : ℤ) (format : Text) : Except Fault Text :=
  match sys.localtime t with
  | none => .error .nullTime
  | some tm =>
    match strftime 30 format tm with
    | none => .ok "ERROR READING TIME".toList
    | some modDate => .ok modDate

/-- `CPHFReader::readETime` with its one format `CPHF_FORMAT_TIME`, `"%d:%02d:%02d"`. -/
def readETime (sys : System) (t : ℤ) : Text :=
  let sec := asInt (t.tdiv sys.clkTck)
  let h := sec.tdiv 3600
  let m := (sec.tmod 3600).tdiv 60
  let s := (sec.tmod 3600).tmod 60
  (signedDecimal h ++ ':' :: twoDigits m ++ ':' :: twoDigits s).take 12

/-- `CPHFReader::format`. -/
def format (value : UInt32) : Text := decimal value.toNat

structure MinorDevRange where
  min : ℕ
  max : ℕ
  deriving DecidableEq

/-- `minor_dev_range::operator<`; the source names its right operand `lhs`. -/
def MinorDevRange.lt (a lhs : MinorDevRange) : Bool := lhs.min < a.min && lhs.max < a.min

abbrev MinorMap := List (MinorDevRange × Text)

abbrev DeviceMap := OMap ℕ MinorMap

/-- A line of `/proc/tty/drivers` as the reader took it apart. -/
structure Driver where
  major : ℕ
  minor : MinorDevRange
  serialDevice : Text
  deriving DecidableEq

/-- One round of extractions: a driver and the unread stream, the end of the table or a failed
extraction, or the exception of `substr(5)`. -/
def readDriver (fsin : Text) : Except Fault (Option (Driver × Text)) :=
  match extractWord fsin with
  | none => .ok none
  | some (_,fsin) =>
    match extractWord fsin with
    | none => .ok none
    | some (serialDevice,fsin) =>
      if serialDevice.length < 5 then .error .outOfRange
      else .ok (do
        let (major,fsin) ← extractUnsigned fsin
        let (min,fsin) ← extractUnsigned fsin
        let (rangeCheck,fsin) ← extractChar fsin
        let (max,fsin) ← if rangeCheck = '-' then extractUnsigned fsin else some (min,fsin)
        let (_,fsin) ← extractWord fsin
        some (⟨major,⟨min,max⟩,serialDevice.drop 5⟩,fsin))

/-- The insertion of a driver: the map of a known major number is copied, and the copy dropped. -/
def insertDriver (deviceMap : DeviceMap) (d : Driver) : DeviceMap :=
  match deviceMap.find? d.major with
  | some minMap =>
    let _minMap := CLib.insertNew MinorDevRange.lt d.minor d.serialDevice minMap
    deviceMap
  | none =>
    deviceMap.insertNew d.major (CLib.insertNew MinorDevRange.lt d.minor d.serialDevice [])

def buildDeviceMapLoop : ℕ → Text → DeviceMap → Except Fault DeviceMap
  | 0,_,_ => .error .unfinished
  | n+1,fsin,deviceMap =>
    readDriver fsin >>= fun r =>
      match r with
      | none => .ok deviceMap
      | some (d,fsin) => buildDeviceMapLoop n fsin (insertDriver deviceMap d)

/-- `CPHFReader::buildDeviceMap`; a round consumes at least one character. -/
def buildDeviceMap (sys : System) : Except Fault DeviceMap :=
  match sys.file "/proc/tty/drivers".toList with
  | none => .ok ∅
  | some fsin => buildDeviceMapLoop (fsin.length+1) fsin ∅

/-- `gnu_dev_major`. -/
def majorOf (dev : UInt64) : ℕ :=
  (((dev &&& 0x00000000000fff00) >>> (8 : UInt64)) |||
    ((dev &&& 0xfffff00000000000) >>> (32 : UInt64))).toNat

/-- `gnu_dev_minor`. -/
def minorOf (dev : UInt64) : ℕ :=
  ((dev &&& 0xff) ||| ((dev &&& 0x00000ffffff00000) >>> (12 : UInt64))).toNat

def FS_CHARCTER_DEVICE : UInt64 := 12

/-- `std::string::find` finds the pattern. -/
def contains (s pattern : Text) : Bool := s.tails.any (pattern.isPrefixOf ·)

/-- The two lookups of `readDevice`; `none` stands for `out_of_range`. -/
def DeviceMap.label (deviceMap : DeviceMap) (major minor : ℕ) : Option Text :=
  (deviceMap.find? major).bind (CLib.lookup MinorDevRange.lt ⟨minor,minor⟩)

/-- The number that names the device of a file. -/
def deviceOf (info : Stat) : UInt64 :=
  if info.st_dev = FS_CHARCTER_DEVICE then info.st_rdev else info.st_dev

def deviceText (deviceMap : DeviceMap) (devID : UInt64) : Text :=
  let numbers := decimal (majorOf devID) ++ ',' :: decimal (minorOf devID) ++ ['\t']
  match deviceMap.label (majorOf devID) (minorOf devID) with
  | none => numbers ++ ['?']
  | some devlabel =>
    if contains devlabel "tty".toList then numbers ++ devlabel ++ decimal (minorOf devID)
    else if contains devlabel "pts".toList then
      numbers ++ devlabel ++ '/' :: decimal (minorOf devID)
    else numbers

/-- `CPHFReader::readDevice`. -/
def readDevice (sys : System) (info : Stat) : Except Fault Text :=
  buildDeviceMap sys >>= fun deviceMap => .ok (deviceText deviceMap (deviceOf info))

/-- One of the bits of a mode is set. -/
def hasBit (mode bit : UInt32) : Bool := mode &&& bit = bit

/-- `CPHFReader::readPerms`. -/
def readPerms (mode : UInt32) : Text :=
  [if mode &&& 0o170000 = 0o040000 then 'd' else '-',
   if hasBit mode 0o400 then 'r' else '-',
   if hasBit mode 0o200 then 'w' else '-',
   if hasBit mode 0o2000 then 's' else if hasBit mode 0o100 then 'x' else '-',
   if hasBit mode 0o040 then 'r' else '-',
   if hasBit mode 0o020 then 'w' else '-',
   if hasBit mode 0o010 then 'x' else '-',
   if hasBit mode 0o004 then 'r' else '-',
   if hasBit mode 0o002 then 'w' else '-',
   if hasBit mode 0o1000 then 't' else if hasBit mode 0o001 then 'x' else '-']

end Cphf
