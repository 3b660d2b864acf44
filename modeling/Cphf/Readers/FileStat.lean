import Cphf.Readers.Proc
import Cphf.CLib.Buffer

/-! `FileStatReader`: the attributes of unlinked files, read through `/proc/PID/fd`. -/
namespace Cphf
open CLib

def FILESTAT_OPTS_DEFAULT : Text := "niugMamcdsp".toList

/-- The `filestat_ops`. -/
inductive FileOption
  | name | inode | uname | uid | gname | gid | mode | accessT | modT | statChangeT | device | size
  | perms
  deriving DecidableEq

namespace FileOption

def char : FileOption → Char
  | name => 'n' | inode => 'i' | uname => 'U' | uid => 'u' | gname => 'G' | gid => 'g' | mode => 'M'
  | accessT => 'a' | modT => 'm' | statChangeT => 'c' | device => 'd' | size => 's' | perms => 'p'

def all : List FileOption :=
  [name,inode,uname,uid,gname,gid,mode,accessT,modT,statChangeT,device,size,perms]

/-- The case a character selects. -/
def ofChar (c : Char) : Option FileOption := all.find? (fun o => o.char = c)

/-- The identifier a case sets; two of them only break. -/
def attribID : FileOption → Option CphfId
  | name => some .filename | inode => some .inode | uname => none | uid => some .uid
  | gname => none | gid => some .ugid | mode => some .filemode | accessT => some .accessT
  | modT => some .modT | statChangeT => some .statChangeT | device => some .device
  | size => some .filesize | perms => some .perms

end FileOption

/-- `FileStatReader::formPath`. -/
def formPath (ULF_TXT_FD : UInt64) (pid : UInt32) (fid : UInt64) : Text :=
  "/proc/".toList ++ decimal pid.toNat ++
    if ULF_TXT_FD < fid then "/exe".toList else "/fd/".toList ++ decimal fid.toNat

/-- A fault of the link target's block. -/
def Fault.ofBlock : BlockFault → Fault
  | .pastEnd => .bufferOverflow
  | .unwritten => .uninitialized

/-- `malloc` or `realloc`, then `memset(filename, 0, filenameLength)`: a null block is written
to all the same. -/
def clearedBlock (filename : Option Block) (filenameLength : ℕ) : Except Fault Block :=
  match filename with
  | none => .error .nullBuffer
  | some b => (b.write (List.replicate filenameLength '\x00')).mapError .ofBlock

/-- What `readlink` stores and returns: at most `size` bytes of the target, no terminator. -/
def readlink (sys : System) (path : Text) (round size : ℕ) (b : Block) :
    Except Fault (Block × ℤ) :=
  match sys.readlink path round with
  | none => .ok (b,-1)
  | some target =>
    (b.write (target.take size)).mapError .ofBlock >>= fun b =>
      .ok (b,(target.take size).length)

/-- The terminator is put at the end of the block and the string read. -/
def finishName (b : Block) (filenameLength : ℕ) : Except Fault Text :=
  (b.put filenameLength '\x00').mapError .ofBlock >>= fun b => b.string.mapError .ofBlock

/-- The loop of `readFileName` from its `round`-th call to `readlink` on. -/
def readFileNameLoop (sys : System) (path : Text) : ℕ → ℕ → Block → ℕ → Except Fault Text
  | 0,_,_,_ => .error .unfinished
  | fuel+1,round,filename,filenameLength =>
    readlink sys path round filenameLength filename >>= fun r =>
      if r.2 = filenameLength then
        let filenameLength := filenameLength <<< 2
        let grown := if sys.allocates path (round+1) then some (r.1.grow (filenameLength+1)) else none
        clearedBlock grown filenameLength >>= fun filename =>
          readFileNameLoop sys path fuel (round+1) filename filenameLength
      else finishName r.1 filenameLength

/-- `FileStatReader::readFileName`. -/
def readFileName (sys : System) (path : Text) : Except Fault Text :=
  let filenameLength := 1024
  let filename := if sys.allocates path 0 then some (Block.alloc (filenameLength+1)) else none
  clearedBlock filename filenameLength >>= fun filename =>
    readFileNameLoop sys path (sys.linkMax+1) 0 filename filenameLength

/-- `FileStatReader::readMode`. -/
def readMode (mode : UInt32) : Text :=
  if mode &&& 0o170000 = 0o100000 then "Regular File".toList
  else if mode &&& 0o170000 = 0o040000 then "Directory".toList
  else if mode &&& 0o170000 = 0o020000 then "Character Device".toList
  else if mode &&& 0o170000 = 0o060000 then "Block Device".toList
  else if mode &&& 0o170000 = 0o010000 then "FIFO (named pipe)".toList
  else if mode &&& 0o170000 = 0o120000 then "Symbolic Link".toList
  else if mode &&& 0o170000 = 0o140000 then "Socket".toList
  else "UNKNOWN".toList

/-- The text of a case of `processOpiton` for the file with this path and status. -/
def FileOption.read (sys : System) (path : Text) (stat : Stat) : FileOption → Except Fault Text
  | .name => readFileName sys path
  | .inode => .ok (format stat.st_ino.toUInt32)
  | .uname => .ok []
  | .uid => .ok (format stat.st_uid)
  | .gname => .ok []
  | .gid => .ok (format stat.st_gid)
  | .mode => .ok (readMode stat.st_mode)
  | .accessT => readLocalTime sys stat.st_atime CPHF_FORMAT_DATE_TIME
  | .modT => readLocalTime sys stat.st_mtime CPHF_FORMAT_DATE_TIME
  | .statChangeT => readLocalTime sys stat.st_ctime CPHF_FORMAT_DATE_TIME
  | .device => readDevice sys stat
  | .size => .ok (format (asUInt32 stat.st_size))
  | .perms => .ok (readPerms stat.st_mode)

/-- `FileStatReader::processOpiton`. -/
def FileStatReader.processOpiton (sys : System) (option : Char) (path : Text) (stat : Stat) :
    Except Fault CphfAttribute :=
  match FileOption.ofChar option with
  | none => .error (.unsetAttribute (notRecognized option))
  | some o =>
    o.read sys path stat >>= fun attrib =>
      match o.attribID with
      | none => .error (.unsetAttribute [])
      | some attribID => .ok (attribID,attrib)

/-- One round of the loop over the options: process an option, then `addReader`. -/
def FileStatReader.collect (sys : System) (path : Text) (stat : Stat) (funcs : ReaderFuncs)
    (option : Char) : Except Fault ReaderFuncs :=
  FileStatReader.processOpiton sys option path stat >>= fun a => .ok (funcs.insertNew a.1 a.2)

/-- `FileStatReader::readFileStatAttributes`. -/
def readFileStatAttributes (sys : System) (ULF_TXT_FD : UInt64) (options : Text) (fid pid : UInt32)
    (ulf : UnlinkedFile) : Except Fault UnlinkedFile :=
  let path := formPath ULF_TXT_FD pid fid.toUInt64
  match sys.stat path with
  | none => .ok ulf
  | some stat =>
    run (FileStatReader.collect sys path stat) ∅ options >>= fun funcs =>
      .ok (ulf.addAttributes funcs.entries)

/-- `FileStatReader::do_read`. -/
def FileStatReader.do_read (sys : System) (ULF_TXT_FD : UInt64) (options : Text)
    (procMap : ProcMap) : Except Fault ProcMap :=
  procMap.traverse (fun _ _ proc => (fun p => ((),p)) <$>
      proc.addFileAttributes (readFileStatAttributes sys ULF_TXT_FD options)) () >>=
    fun r => .ok r.2

end Cphf
