import Cphf.Common
import Cphf.CLib.OrderedMap

/-! The store of processes and their unlinked files, filled by one reader after another.
Objects are never removed, so a pointer into the store is the key it was inserted under. -/
namespace Cphf
open CLib

/-- `init::init_TxtFD`, from the hard limit `getrlimit` reports, if it reports one. -/
def init_TxtFD (rlim_max : Option UInt64) : UInt64 :=
  match rlim_max with
  | some m => m + 1
  | none => ((4294967295 : UInt32) + 1).toUInt64

structure UnlinkedFile where
  path : Text
  fid : UInt32
  pid : UInt32
  attributes : List CphfAttribute
  deriving DecidableEq

/-- The constructor of `UnlinkedFile`; `ULF_TXT_FD` is the value `init_TxtFD` gave. -/
def UnlinkedFile.new (ULF_TXT_FD pid fid : UInt64) : UnlinkedFile where
  path := "/proc/".toList ++ decimal pid.toNat ++
    if ULF_TXT_FD < fid then "/exe".toList else "/fd/".toList ++ decimal fid.toNat
  fid := fid.toUInt32
  pid := pid.toUInt32
  attributes := []

/-- `UnlinkedFile::do_addAttribute`. -/
def UnlinkedFile.addAttribute (ulf : UnlinkedFile) (attrid : CphfId) (value : Text) :
    UnlinkedFile :=
  match attrid with
  | .filename => { ulf with attributes := (attrid,value) :: ulf.attributes }
  | _ => { ulf with attributes := ulf.attributes ++ [(attrid,value)] }

/-- The attributes a reader collected, added in order. -/
def UnlinkedFile.addAttributes (ulf : UnlinkedFile) (l : List CphfAttribute) : UnlinkedFile :=
  l.foldl (fun ulf a => ulf.addAttribute a.1 a.2) ulf

structure ProcFile where
  pid : UInt32
  attributes : List CphfAttribute
  ulFiles : OMap ℤ UnlinkedFile

def ProcFile.new : ProcFile := ⟨0,[],∅⟩

/-- `ProcFile::do_addAttribute`. -/
def ProcFile.addAttribute (pf : ProcFile) (attrid : CphfId) (value : Text) : ProcFile :=
  match attrid with
  | .pid =>
    { pf with pid := asUInt32 (atoi (c_str value)), attributes := pf.attributes ++ [(attrid,value)] }
  | .cmd => { pf with attributes := (attrid,value) :: pf.attributes }
  | _ => { pf with attributes := pf.attributes ++ [(attrid,value)] }

/-- The attributes a reader collected, added in order. -/
def ProcFile.addAttributes (pf : ProcFile) (l : List CphfAttribute) : ProcFile :=
  l.foldl (fun pf a => pf.addAttribute a.1 a.2) pf

/-- The `int` key of a descriptor: it passes through a `pair<unsigned int, ...>`. -/
def fileKey (fd : UInt64) : ℤ := asInt fd.toUInt32.toNat

/-- `ProcFile::addFile`; the file it returns is the one under `fileKey fd`. -/
def ProcFile.addFile (pf : ProcFile) (fd : UInt64) (ulf : UnlinkedFile) : ProcFile :=
  { pf with ulFiles := pf.ulFiles.insertNew (fileKey fd) ulf }

/-- The `(fid, pid)` arguments `addFileAttributes` calls its function with at a key. -/
def ProcFile.passedOn (pf : ProcFile) (key : ℤ) : UInt32 × UInt32 := (asUInt32 key,pf.pid)

/-- `ProcFile::addFileAttributes`. -/
def ProcFile.addFileAttributes
    (func : UInt32 → UInt32 → UnlinkedFile → Except Fault UnlinkedFile) (pf : ProcFile) :
    Except Fault ProcFile :=
  pf.ulFiles.traverse (fun _ key ulf =>
    (fun ulf => ((),ulf)) <$> func (pf.passedOn key).1 (pf.passedOn key).2 ulf) () >>=
  fun r => .ok { pf with ulFiles := r.2 }

/-- The objects a queue points to. -/
inductive CphfFile
  | proc (pf : ProcFile)
  | file (ulf : UnlinkedFile)

/-- `ProcFile::flatten`. -/
def ProcFile.flatten (pf : ProcFile) : List CphfFile := pf.ulFiles.entries.map (fun e => .file e.2)

abbrev ProcMap := OMap ℤ ProcFile

/-- The file object a pair of keys refers to. -/
def fileAt (m : ProcMap) (e : ℤ × ℤ) : Option UnlinkedFile :=
  (m.find? e.1).bind fun p => p.ulFiles.find? e.2

/-- `ProcFileEntryBuilder::flattenMap`. -/
def flattenMap (procMap : ProcMap) (procs files : Bool) : List CphfFile :=
  procMap.entries.flatMap fun e =>
    (if procs then [.proc e.2] else []) ++ if files then e.2.flatten else []

@[simp] theorem UnlinkedFile.new_pid (T pid fid : UInt64) :
    (UnlinkedFile.new T pid fid).pid = pid.toUInt32 := rfl

@[simp] theorem UnlinkedFile.new_fid (T pid fid : UInt64) :
    (UnlinkedFile.new T pid fid).fid = fid.toUInt32 := rfl

@[simp] theorem UnlinkedFile.new_attributes (T pid fid : UInt64) :
    (UnlinkedFile.new T pid fid).attributes = [] := rfl

@[simp] theorem UnlinkedFile.addAttribute_fid (u : UnlinkedFile) (i : CphfId) (v : Text) :
    (u.addAttribute i v).fid = u.fid := by cases i <;> rfl

@[simp] theorem UnlinkedFile.addAttribute_pid (u : UnlinkedFile) (i : CphfId) (v : Text) :
    (u.addAttribute i v).pid = u.pid := by cases i <;> rfl

@[simp] theorem ProcFile.addAttribute_ulFiles (p : ProcFile) (i : CphfId) (v : Text) :
    (p.addAttribute i v).ulFiles = p.ulFiles := by cases i <;> rfl

theorem ProcFile.addAttribute_pid (p : ProcFile) {i : CphfId} (h : i ≠ .pid) (v : Text) :
    (p.addAttribute i v).pid = p.pid := by cases i <;> first | rfl | contradiction

@[simp] theorem ProcFile.addFile_pid (p : ProcFile) (fd : UInt64) (u : UnlinkedFile) :
    (p.addFile fd u).pid = p.pid := rfl

@[simp] theorem ProcFile.addFile_attributes (p : ProcFile) (fd : UInt64) (u : UnlinkedFile) :
    (p.addFile fd u).attributes = p.attributes := rfl

theorem fileKey_asUInt64 {v : ℤ} (h0 : -2^31 ≤ v) (h : v < 2^31) : fileKey (asUInt64 v) = v := by
  rw [fileKey, asUInt64_toUInt32, asInt_asUInt32 h0 h]

/-- Back from the key, the word that is passed on is the descriptor modulo `2^32`. -/
@[simp] theorem asUInt32_fileKey (fd : UInt64) : asUInt32 (fileKey fd) = fd.toUInt32 := by
  rw [fileKey, asUInt32_asInt, asUInt32_toNat]

theorem fileKey_eq_iff {a b : UInt64} : fileKey a = fileKey b ↔ a.toUInt32 = b.toUInt32 :=
  ⟨asInt_injective_on,fun h => by rw [fileKey, h, fileKey]⟩

@[simp] theorem ProcFile.addAttributes_ulFiles (p : ProcFile) (l : List CphfAttribute) :
    (p.addAttributes l).ulFiles = p.ulFiles := by
  induction l generalizing p with
  | nil => rfl
  | cons a l ih => exact (ih _).trans (p.addAttribute_ulFiles a.1 a.2)

/-- Attributes with one identifier come to the front, the others to the end. -/
def arranged (front : CphfId) (old new : List CphfAttribute) : List CphfAttribute :=
  (new.filter (·.1 = front)).reverse ++ old ++ new.filter (·.1 ≠ front)

theorem mem_arranged {front : CphfId} {old new : List CphfAttribute} {a : CphfAttribute} :
    a ∈ arranged front old new ↔ a ∈ old ∨ a ∈ new := by
  unfold arranged
  by_cases ha : a.1 = front <;> simp [ha, or_comm]

/-- Commands come to the front of a process. -/
theorem ProcFile.addAttributes_attributes (p : ProcFile) (l : List CphfAttribute) :
    (p.addAttributes l).attributes = arranged .cmd p.attributes l := by
  unfold arranged
  induction l generalizing p with
  | nil => simp [addAttributes]
  | cons a l ih =>
    obtain ⟨i,v⟩ := a
    apply (ih (p.addAttribute i v)).trans
    by_cases hi : i = .cmd
    · subst hi
      simp [addAttribute]
    · have ha : (p.addAttribute i v).attributes = p.attributes ++ [(i,v)] := by
        cases i <;> first | rfl | contradiction
      simp [hi, ha]

/-- File names come to the front of a file. -/
theorem UnlinkedFile.addAttributes_attributes (u : UnlinkedFile) (l : List CphfAttribute) :
    (u.addAttributes l).attributes = arranged .filename u.attributes l := by
  unfold arranged
  induction l generalizing u with
  | nil => simp [addAttributes]
  | cons a l ih =>
    obtain ⟨i,v⟩ := a
    apply (ih (u.addAttribute i v)).trans
    by_cases hi : i = .filename
    · subst hi
      simp [addAttribute]
    · have ha : (u.addAttribute i v).attributes = u.attributes ++ [(i,v)] := by
        cases i <;> first | rfl | contradiction
      simp [hi, ha]

/-- A filter that keeps the old attributes filters the new ones. -/
theorem arranged_filter {front : CphfId} {old new : List CphfAttribute}
    {keep : CphfAttribute → Bool} (h : ∀ a ∈ old, keep a = true) :
    (arranged front old new).filter keep = arranged front old (new.filter keep) := by
  unfold arranged
  rw [List.filter_append, List.filter_append, List.filter_reverse, List.filter_eq_self.mpr h]
  simp only [List.filter_filter, Bool.and_comm]

/-- The identifiers ascend strictly. -/
def Ascending (l : List CphfAttribute) : Prop := (l.map Prod.fst).Pairwise (· < ·)

theorem arranged_ascending {front : CphfId} {old new : List CphfAttribute} (ho : Ascending old)
    (hn : Ascending new) (hfo : ∀ a ∈ old, front < a.1)
    (hfn : ∀ b ∈ new, b.1 ≠ front → front < b.1)
    (hon : ∀ a ∈ old, ∀ b ∈ new, b.1 ≠ front → a.1 < b.1) :
    Ascending (arranged front old new) := by
  have hone : ∀ l : List CphfAttribute, Ascending l →
      Ascending (l.filter (·.1 = front)).reverse := by
    intro l hl
    have hs := hl.sublist (List.filter_sublist.map Prod.fst : List.Sublist
      ((l.filter (·.1 = front)).map Prod.fst) _)
    unfold Ascending
    rw [List.map_reverse, List.pairwise_reverse]
    apply hs.imp_of_mem
    intro _ _ ha hb hab
    obtain ⟨a,hma,rfl⟩ := List.mem_map.mp ha
    obtain ⟨b,hmb,rfl⟩ := List.mem_map.mp hb
    have hfa : a.1 = front := by simpa using (List.mem_filter.mp hma).2
    have hfb : b.1 = front := by simpa using (List.mem_filter.mp hmb).2
    exact absurd (hfa.trans hfb.symm) hab.ne
  unfold arranged Ascending at *
  simp only [List.map_append, List.pairwise_append, List.mem_append, List.mem_map,
    List.mem_reverse, List.mem_filter, decide_eq_true_eq]
  refine ⟨⟨hone new hn,ho,?_⟩,hn.sublist (List.filter_sublist.map _),?_⟩
  · rintro _ ⟨a,⟨_,rfl⟩,rfl⟩ _ ⟨b,hb,rfl⟩
    exact hfo b hb
  · rintro _ (⟨a,⟨_,rfl⟩,rfl⟩ | ⟨a,ha,rfl⟩) _ ⟨b,⟨hb,hne⟩,rfl⟩
    · exact hfn b hb hne
    · exact hon a ha b hb hne

/-- What `addFileAttributes` leaves behind. -/
theorem ProcFile.addFileAttributes_ok {func : UInt32 → UInt32 → UnlinkedFile → Except Fault UnlinkedFile}
    {p q : ProcFile} : p.addFileAttributes func = .ok q ↔ ∃ files,
      p.ulFiles.traverse (fun (_ : Unit) key ulf => (fun ulf => ((),ulf)) <$>
        func (p.passedOn key).1 (p.passedOn key).2 ulf) () = .ok ((),files) ∧
      q = { p with ulFiles := files } := by
  rw [addFileAttributes, bind_eq_ok]
  constructor
  · rintro ⟨⟨_,files⟩,h,hq⟩
    cases hq
    exact ⟨files,h,rfl⟩
  · rintro ⟨files,h,rfl⟩
    exact ⟨_,h,rfl⟩

/-- A store with one process and its descriptor 3. -/
def oneFile : ProcMap :=
  (∅ : ProcMap).insertNew 7
    ((ProcFile.new.addAttribute .pid "7".toList).addFile 3 (UnlinkedFile.new 1024 7 3))

end Cphf
