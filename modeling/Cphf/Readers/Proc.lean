import Cphf.Readers.Base
import Cphf.CLib.Scanf

/-! `ProcReader`: the attributes of processes, read from `/proc/PID`. -/
namespace Cphf
open CLib

def PROC_OPTS_DEFAULT : Text := "PnUqMduGgesvrTDSic".toList

/-- The `procreader_opts` for which `processOpiton` has a case. -/
inductive ProcOption
  | command | ppid | procgid | username | uid | ugidName | ugid | startTime | cpuTime | state
  | device | vms | rms | memText | memData | memStack | instPtr | perms
  deriving DecidableEq

namespace ProcOption

def char : ProcOption → Char
  | command => 'c' | ppid => 'P' | procgid => 'n' | username => 'U' | uid => 'u' | ugidName => 'G'
  | ugid => 'g' | startTime => 'e' | cpuTime => 'q' | state => 's' | device => 'd' | vms => 'v'
  | rms => 'r' | memText => 'T' | memData => 'D' | memStack => 'S' | instPtr => 'i' | perms => 'M'

def all : List ProcOption :=
  [command,ppid,procgid,username,uid,ugidName,ugid,startTime,cpuTime,state,device,vms,rms,
    memText,memData,memStack,instPtr,perms]

/-- The case a character selects. -/
def ofChar (c : Char) : Option ProcOption := all.find? (fun o => o.char = c)

def attribID : ProcOption → CphfId
  | command => .cmd | ppid => .ppid | procgid => .procgid | username => .loginname | uid => .uid
  | ugidName => .ugidName | ugid => .ugid | startTime => .pstartTime | cpuTime => .pcpuTime
  | state => .pstate | device => .device | vms => .pvms | rms => .prss | memText => .textRegion
  | memData => .dataRegion | memStack => .stackRegion | instPtr => .epi | perms => .perms

end ProcOption

/-- `ProcReader::procstate`; an unknown state is given the empty text. -/
def procstate (c : Char) : Text :=
  if c = 'R' then "R (Running)".toList
  else if c = 'S' then "S (Sleeping in an interruptible wait)".toList
  else if c = 'D' then "D (Waiting in uninterruptible disk sleep)".toList
  else if c = 'Z' then "Z (Zombie)".toList
  else if c = 'W' then "W (Paging)".toList
  else if c = 'T' then "T (Stopped on a signal)".toList
  else []

/-- `proc_info`; one record serves all processes of a `do_read`. -/
structure ProcInfo where
  device : UInt32
  state : Char
  pid : UInt32
  ppid : UInt32
  procgid : UInt32
  putime : UInt64
  pstime : UInt64
  pcutime : UInt64
  pcstime : UInt64
  starttime : UInt64
  textbegin : UInt64
  textend : UInt64
  databegin : UInt64
  dataend : UInt64
  stackbegin : UInt64
  esp : UInt64
  epi : UInt64
  vms : UInt64
  rss : UInt64
  info : Stat
  pw : Option Passwd
  gr : Option Group
  deriving Inhabited

/-- An item stored through a pointer to an integer of 32 or 64 bits, or to a `char`. -/
def Item.uint32 : Item → UInt32
  | .signed v => asUInt32 v
  | .unsigned v => v.toUInt32
  | _ => 0

def Item.uint64 : Item → UInt64
  | .signed v => asUInt64 v
  | .unsigned v => v
  | _ => 0

def Item.byte : Item → Char
  | .char c => c
  | _ => '\x00'

/-- The members of `proc_info` that `fscanf` is given pointers to. -/
inductive StatField
  | state | ppid | procgid | device | putime | pstime | pcutime | pcstime | starttime | vms | rss
  | textbegin | textend | stackbegin | esp | epi | databegin | dataend
  deriving DecidableEq

/-- Store a converted item through the pointer to a member. -/
def StatField.store (x : Item) (i : ProcInfo) : StatField → ProcInfo
  | state => { i with state := Item.byte x }
  | ppid => { i with ppid := Item.uint32 x }
  | procgid => { i with procgid := Item.uint32 x }
  | device => { i with device := Item.uint32 x }
  | putime => { i with putime := Item.uint64 x }
  | pstime => { i with pstime := Item.uint64 x }
  | pcutime => { i with pcutime := Item.uint64 x }
  | pcstime => { i with pcstime := Item.uint64 x }
  | starttime => { i with starttime := Item.uint64 x }
  | vms => { i with vms := Item.uint64 x }
  | rss => { i with rss := Item.uint64 x }
  | textbegin => { i with textbegin := Item.uint64 x }
  | textend => { i with textend := Item.uint64 x }
  | stackbegin => { i with stackbegin := Item.uint64 x }
  | esp => { i with esp := Item.uint64 x }
  | epi => { i with epi := Item.uint64 x }
  | databegin => { i with databegin := Item.uint64 x }
  | dataend => { i with dataend := Item.uint64 x }

/-- The consecutive `fscanf` calls of `readProcStat`: each format with its arguments. -/
def statCalls : List (Text × List StatField) :=
  [("%*d %*s %c %d %d %*d %d %*u %*u %*u".toList,[.state,.ppid,.procgid,.device]),
   ("%*u %*u %*u %lu %lu %lu %lu %*u %*u %*u".toList,[.putime,.pstime,.pcutime,.pcstime]),
   ("%*u %llu %lu %ld %*u %lu".toList,[.starttime,.vms,.rss,.textbegin]),
   ("%lu %lu %lu %lu".toList,[.textend,.stackbegin,.esp,.epi]),
   ("%*u %*u %*u %*u %*u %*u %*u %*u %*d %*d %*u %*u %*u %*u %*d %lu %lu".toList,
    [.databegin,.dataend])]

/-- Store the converted items; the members after them keep their values. -/
def assign : List StatField → List Item → ProcInfo → ProcInfo
  | f :: fs,x :: xs,i => assign fs xs (f.store x i)
  | _,_,i => i

/-- Run calls on one stream, each going on where the one before stopped: the sum of their
results and the record. -/
def scanStat : List (Text × List StatField) → Text → ProcInfo → ℤ × ProcInfo
  | [],_,i => (0,i)
  | (fmt,fields) :: calls,fin,i =>
    let r := fscanf fmt fin
    let (n,i) := scanStat calls r.rest (assign fields r.items i)
    (r.result + n,i)

/-- `/proc/PID/` and a name. -/
def procPath (pid : UInt32) (name : Text) : Text :=
  "/proc/".toList ++ decimal pid.toNat ++ '/' :: name

/-- What is left in the stream `strbuff` when `fopen` fails. -/
def lookupError (pid : UInt32) : Text := "ERROR looking up PID ".toList ++ decimal pid.toNat

/-- The state of `do_read` between processes: the shared record and the text printed. -/
structure ProcLoop where
  info : ProcInfo
  printed : Text

/-- The part of `readProcStat` that reads the stat file, and the front of the next path. -/
def readStatFile (sys : System) (pid : UInt32) (st : ProcLoop) : ProcLoop × Text :=
  match sys.file (procPath pid "stat".toList) with
  | none => (st,lookupError pid)
  | some fin =>
    let (fscanResult,info) := scanStat statCalls fin st.info
    let message := if fscanResult = 18 then [] else
      "ERROR: problem reading /proc/".toList ++ signedDecimal (asInt pid.toNat) ++ "/stat\n".toList
    (⟨{ info with pw := none, gr := none },st.printed ++ message⟩,[])

/-- `ProcReader::readProcStat`: whether it succeeded, and the state after it. -/
def readProcStat (sys : System) (pid : UInt32) (st : ProcLoop) : Bool × ProcLoop :=
  let (st,strbuff) := readStatFile sys pid st
  match sys.stat (strbuff ++ procPath pid "exe".toList) with
  | none => (false,st)
  | some info => (true,{ st with info := { st.info with info := info } })

def INST_POINTER : UInt64 := 33

/-- `ProcReader::format`. -/
def formatRange (begin' end' : UInt64) : Text :=
  hexShowBase begin'.toNat ++
    if end' ≠ INST_POINTER then "  -  ".toList ++ hexShowBase end'.toNat else []

/-- `ProcReader::readCMD`. -/
def readCMD (sys : System) (pid : UInt32) : Text :=
  match sys.file (procPath pid "cmdline".toList) with
  | none => []
  | some fsin => (getlines '\x00' fsin).flatMap (· ++ [' '])

/-- `ProcReader::readIDs`, whose lookups stay in the record. -/
def readIDs (sys : System) (o : ProcOption) (info : ProcInfo) : Except Fault (Text × ProcInfo) :=
  if o = .username ∨ o = .uid then
    let info := { info with pw := info.pw.or (sys.getpwuid info.info.st_uid) }
    match info.pw with
    | none => .error .nullPasswd
    | some pw => .ok (if o = .username then pw.pw_name else decimal pw.pw_uid.toNat,info)
  else
    let info := { info with gr := info.gr.or (sys.getgrgid info.info.st_gid) }
    match info.gr with
    | none => .error .nullGroup
    | some gr => .ok (if o = .ugidName then gr.gr_name else decimal gr.gr_gid.toNat,info)

/-- The seconds since boot at the front of `/proc/uptime`. -/
def timeSinceBoot (sys : System) : Option ℤ :=
  (sys.file "/proc/uptime".toList).bind fun fsin => (extractSigned fsin).map Prod.fst

/-- `ProcReader::readTime`. -/
def readStartTime (sys : System) (t : ℤ) (format : Text) : Except Fault Text :=
  match timeSinceBoot sys with
  | none => .ok "ERROR READING TIME".toList
  | some boot => readLocalTime sys (asLong (sys.time - boot + t.tdiv sys.clkTck)) format

/-- The text of a case of `processOpiton`, and the record after it. -/
def ProcOption.read (sys : System) (info : ProcInfo) :
    ProcOption → Except Fault (Text × ProcInfo)
  | .command => .ok (readCMD sys info.pid,info)
  | .ppid => .ok (format info.ppid,info)
  | .procgid => .ok (format info.procgid,info)
  | .username => readIDs sys .username info
  | .uid => readIDs sys .uid info
  | .ugidName => readIDs sys .ugidName info
  | .ugid => readIDs sys .ugid info
  | .startTime =>
    readStartTime sys (asLong info.starttime.toNat) CPHF_FORMAT_DATE_TIME >>= fun t => .ok (t,info)
  | .cpuTime => .ok (readETime sys (asLong (info.pstime + info.putime).toNat),info)
  | .state => .ok (procstate info.state,info)
  | .device => readDevice sys info.info >>= fun t => .ok (t,info)
  | .vms => .ok (format info.vms.toUInt32,info)
  | .rms => .ok (format info.rss.toUInt32,info)
  | .memText => .ok (formatRange info.textbegin info.textend,info)
  | .memData => .ok (formatRange info.databegin info.dataend,info)
  | .memStack => .ok (formatRange info.stackbegin info.esp,info)
  | .instPtr => .ok (formatRange info.epi INST_POINTER,info)
  | .perms => .ok (readPerms info.info.st_mode,info)

/-- What `default:` prints before an attribute without an identifier is returned. -/
def notRecognized (option : Char) : Text :=
  "ERROR: proc option ".toList ++ option :: " not recognized\n".toList

/-- `ProcReader::processOpiton`. -/
def ProcReader.processOpiton (sys : System) (option : Char) (info : ProcInfo) :
    Except Fault (CphfAttribute × ProcInfo) :=
  match ProcOption.ofChar option with
  | none => .error (.unsetAttribute (notRecognized option))
  | some o => o.read sys info >>= fun r => .ok ((o.attribID,r.1),r.2)

/-- The attributes collected for one object, in the order of their identifiers. -/
abbrev ReaderFuncs := OMap CphfId Text

/-- One round of the loop over the options: process an option, then `addReader`. -/
def ProcReader.collect (sys : System) (s : ProcInfo × ReaderFuncs) (option : Char) :
    Except Fault (ProcInfo × ReaderFuncs) :=
  ProcReader.processOpiton sys option s.1 >>= fun r =>
    .ok (r.2,s.2.insertNew r.1.1 r.1.2)

/-- The body of the loop of `ProcReader::do_read`. -/
def ProcReader.visit (sys : System) (options : Text) (st : ProcLoop) (key : ℤ) (proc : ProcFile) :
    Except Fault (ProcLoop × ProcFile) :=
  let pid := asUInt32 key
  match readProcStat sys pid st with
  | (false,st) => .ok (st,proc)
  | (true,st) =>
    run (ProcReader.collect sys) ({ st.info with pid := pid },∅) options >>= fun r =>
      .ok ({ st with info := r.1 },proc.addAttributes r.2.entries)

/-- `ProcReader::do_read`; `fresh` is what the new record holds before anything is stored in
it. The text printed and the store. -/
def ProcReader.do_read (sys : System) (fresh : ProcInfo) (options : Text) (procMap : ProcMap) :
    Except Fault (Text × ProcMap) :=
  procMap.traverse (ProcReader.visit sys options) ⟨fresh,[]⟩ >>= fun r => .ok (r.1.printed,r.2)

end Cphf
