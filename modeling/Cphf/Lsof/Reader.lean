import Cphf.Store
import Cphf.CLib.Runs
import Cphf.CLib.Scanf

/-! `LSOFReader::bufferedRead`: the loop over the field stream of `lsof -F`. -/
namespace Cphf
open CLib

/-- `lsof_flags`, the field identifiers the reader knows. -/
inductive LsofFlag
  | fd
  | pid
  | flags
  deriving DecidableEq

def LsofFlag.ofChar (c : Char) : Option LsofFlag :=
  if c = 'f' then some .fd else if c = 'p' then some .pid else if c = 'G' then some .flags else none

/-- The variables `bufferedRead` carries from one iteration to the next. A null or unset
variable is `none`; `pf` and `ulf` are the keys the objects were inserted under. -/
structure LsofLoop where
  procMap : ProcMap
  ulf : Option (ℤ × ℤ)
  pf : Option ℤ
  txt_fd_counter : UInt64
  pid : UInt64
  fid : UInt64
  charbuff : Option Text
  strbuff : Text

def LsofLoop.init (ULF_TXT_FD : UInt64) (procMap : ProcMap) : LsofLoop where
  procMap := procMap
  ulf := none
  pf := none
  txt_fd_counter := ULF_TXT_FD + 1
  pid := 0
  fid := 0
  charbuff := none
  strbuff := []

/-- `case LSOF_ID_FD`. -/
def LsofLoop.readFd (ULF_TXT_FD : UInt64) (st : LsofLoop) (charbuff : Text) :
    Except Fault LsofLoop :=
  let strbuff := st.strbuff ++ c_str charbuff
  let fid := if strbuff = "txt".toList then st.txt_fd_counter else asUInt64 (atoi (c_str charbuff))
  let counter := if strbuff = "txt".toList then st.txt_fd_counter + 1 else st.txt_fd_counter
  match st.pf with
  | none => .error .nullProcess
  | some p => .ok { st with
      procMap := st.procMap.modify p (·.addFile fid (UnlinkedFile.new ULF_TXT_FD st.pid fid))
      ulf := some (p,fileKey fid)
      txt_fd_counter := counter
      fid := fid
      strbuff := strbuff }

/-- `case LSOF_ID_FLAGS`. -/
def LsofLoop.readFlags (st : LsofLoop) : Except Fault LsofLoop :=
  match st.ulf with
  | none => .error .nullFile
  | some (p,j) => .ok { st with
      procMap := st.procMap.modify p fun pf =>
        { pf with ulFiles := pf.ulFiles.modify j (·.addAttribute .flags st.strbuff) } }

/-- `case LSOF_ID_PID`. -/
def LsofLoop.readPid (st : LsofLoop) (charbuff : Text) : LsofLoop :=
  let strbuff := st.strbuff ++ c_str charbuff
  let pid := asUInt64 (atoi (c_str charbuff))
  { st with
    procMap := (st.procMap.insertNew (fileKey pid) ProcFile.new).modify (fileKey pid)
      (·.addAttribute .pid strbuff)
    pf := some (fileKey pid)
    pid := pid
    strbuff := strbuff }

/-- The buffer's contents; reading it before anything was stored in it is an error. -/
def LsofLoop.buffer (st : LsofLoop) : Except Fault Text :=
  match st.charbuff with
  | none => .error .uninitialized
  | some w => .ok w

/-- The `switch` on the field identifier. -/
def LsofLoop.dispatch (ULF_TXT_FD : UInt64) (st : LsofLoop) (lsofid : Char) :
    Except Fault LsofLoop :=
  match LsofFlag.ofChar lsofid with
  | some .fd => st.buffer >>= st.readFd ULF_TXT_FD
  | some .flags => st.readFlags
  | some .pid => st.buffer >>= fun w => .ok (st.readPid w)
  | none => .ok st

/-- What one successful `fscanf(fin,"%c%s\n",&lsofid,charbuff)` assigned. -/
structure Token where
  lsofid : Char
  value : Option Text
  deriving DecidableEq

/-- `charbuff` has room for 1023 characters and the terminator. -/
def bufferSize : ℕ := 1024

def LsofLoop.store (st : LsofLoop) (t : Token) : Except Fault LsofLoop :=
  match t.value with
  | none => .ok st
  | some w =>
    if w.length < bufferSize then .ok { st with charbuff := some w } else .error .bufferOverflow

/-- One iteration: the switch, then `strbuff.clear(); strbuff.str("")`. -/
def LsofLoop.iterate (ULF_TXT_FD : UInt64) (st : LsofLoop) (t : Token) : Except Fault LsofLoop :=
  st.store t >>= fun st =>
    st.dispatch ULF_TXT_FD t.lsofid >>= fun st => .ok { st with strbuff := [] }

/-- The call to `fscanf` in the loop condition: a token and the unread stream. -/
def nextToken (fin : Text) : Option (Token × Text) :=
  let r := fscanf "%c%s\n".toList fin
  if r.result > 0 then
    match r.items with
    | [.char c] => some (⟨c,none⟩,r.rest)
    | [.char c,.word w] => some (⟨c,some w⟩,r.rest)
    | _ => none
  else none

/-- The loop; every iteration consumes at least one character of the stream. -/
def bufferedReadLoop (ULF_TXT_FD : UInt64) : ℕ → LsofLoop → Text → Except Fault LsofLoop
  | 0,st,_ => .ok st
  | n+1,st,fin =>
    match nextToken fin with
    | none => .ok st
    | some (t,rest) => st.iterate ULF_TXT_FD t >>= fun st => bufferedReadLoop ULF_TXT_FD n st rest

/-- The variables of `bufferedRead` when the loop ends. -/
def bufferedReadState (ULF_TXT_FD : UInt64) (procMap : ProcMap) (fin : Text) :
    Except Fault LsofLoop :=
  bufferedReadLoop ULF_TXT_FD (fin.length+1) (LsofLoop.init ULF_TXT_FD procMap) fin

/-- `LSOFReader::bufferedRead`. -/
def bufferedRead (ULF_TXT_FD : UInt64) (procMap : ProcMap) (fin : Text) : Except Fault ProcMap :=
  LsofLoop.procMap <$> bufferedReadState ULF_TXT_FD procMap fin

/-- What `getFilesInfo` gets from the system: no pipe, no child, or the child's output. -/
inductive LsofAnswer
  | noPipe
  | noFork
  | output (bytes : Text)

/-- `LSOFReader::getFilesInfo`: the text printed and the store filled. -/
def getFilesInfo (ULF_TXT_FD : UInt64) (answer : LsofAnswer) (procMap : ProcMap) :
    Except Fault (Text × ProcMap) :=
  match answer with
  | .noPipe => .ok ("ERROR: could not form pipe for LSOFReader\n".toList,procMap)
  | .noFork => .ok ("ERROR: Could not fork process.\n".toList,procMap)
  | .output bytes => (fun m => ([],m)) <$> bufferedRead ULF_TXT_FD procMap bytes

def LSOF_OPTS_DEFAULT : Text := "pfg".toList

end Cphf
