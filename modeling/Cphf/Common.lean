import Cphf.CLib.Text

/-! Attribute identifiers, their labels, and the ways a run can go wrong. -/
namespace Cphf
open CLib

/-- `cphf_ids`. -/
inductive CphfId
  | pid | fd | lock | cmd | filename | device | inode | procgid | ppid | loginname | uid
  | ugidName | ugid | filemode | pstate | flags | perms | pstartTime | accessT | modT
  | statChangeT | pcpuTime | rawDevice | filesize | pvms | prss | textRegion | dataRegion
  | stackRegion | esp | epi
  deriving DecidableEq, Repr

namespace CphfId

def value : CphfId → ℕ
  | pid => 5 | fd => 105 | lock => 130 | cmd => 0 | filename => 2 | device => 6 | inode => 8
  | procgid => 10 | ppid => 15 | loginname => 20 | uid => 25 | ugidName => 30 | ugid => 35
  | filemode => 39 | pstate => 40 | flags => 41 | perms => 42 | pstartTime => 45 | accessT => 46
  | modT => 47 | statChangeT => 48 | pcpuTime => 50 | rawDevice => 54 | filesize => 57
  | pvms => 60 | prss => 65 | textRegion => 70 | dataRegion => 75 | stackRegion => 80
  | esp => 85 | epi => 90

/-- `CPHF_LABEL_*`. -/
def label : CphfId → Text
  | pid => "Process ID (PID)".toList
  | fd => "File Descriptor".toList
  | lock => "Lock (r|w|u)".toList
  | cmd => "Command".toList
  | filename => "Filename".toList
  | device => "Device".toList
  | inode => "Inode".toList
  | procgid => "Process Group ID (PGID)".toList
  | ppid => "Parent PID".toList
  | loginname => "User Name".toList
  | uid => "User ID (UID)".toList
  | ugidName => "User Group Name".toList
  | ugid => "User Group ID (UGID)".toList
  | filemode => "File Mode".toList
  | pstate => "Current State".toList
  | flags => "File Flags".toList
  | perms => "Permissions".toList
  | pstartTime => "Start Time".toList
  | accessT => "Last Accessed".toList
  | modT => "Last Modified".toList
  | statChangeT => "Last Status Change".toList
  | pcpuTime => "CPU Time".toList
  | rawDevice => "Raw Device".toList
  | filesize => "File Size (bytes)".toList
  | pvms => "Virtual Memory (bytes)".toList
  | prss => "Resident Set (pages)".toList
  | textRegion => "Text Region".toList
  | dataRegion => "Data Region".toList
  | stackRegion => "Stack".toList
  | esp => "Stack Pointer".toList
  | epi => "Instruction Pointer".toList

def all : List CphfId :=
  [pid,fd,lock,cmd,filename,device,inode,procgid,ppid,loginname,uid,ugidName,ugid,filemode,pstate,
    flags,perms,pstartTime,accessT,modT,statChangeT,pcpuTime,rawDevice,filesize,pvms,prss,
    textRegion,dataRegion,stackRegion,esp,epi]

theorem mem_all (i : CphfId) : i ∈ all := by cases i <;> decide

/-- The identifier a value stands for. -/
theorem find_value (i : CphfId) : all.find? (fun j => j.value = i.value) = some i := by
  cases i <;> rfl

theorem value_injective : Function.Injective value := by
  intro i j h
  have hi := find_value i
  rw [h, find_value j] at hi
  exact (Option.some.inj hi).symm

/-- Attributes are ordered by the value of their identifier. -/
instance : LinearOrder CphfId := LinearOrder.lift' value value_injective

end CphfId

/-- `cphf_attribute`: an identifier and its text. -/
abbrev CphfAttribute := CphfId × Text

/-- What stops the program: a null pointer dereferenced, memory misused, an attribute whose
identifier was never set, or an exception nobody catches. `unfinished` marks a loop that was
given too few rounds. -/
inductive Fault
  | nullProcess
  | nullFile
  | nullPasswd
  | nullGroup
  | nullTime
  | nullBuffer
  | uninitialized
  | bufferOverflow
  | unsetAttribute (printed : Text)
  | outOfRange
  | unfinished
  deriving DecidableEq

end Cphf
