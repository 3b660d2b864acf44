import Cphf.Lsof.Records

/-! What one iteration of `bufferedRead` can do, said once: the four outcomes of the switch
as updates of the carried variables, and the invariant every iteration keeps. -/
namespace Cphf
open CLib

namespace LsofLoop
variable (T : UInt64) (st : LsofLoop)

/-- The value an iteration works on: the word just read, else what the buffer still holds. -/
def effective (t : Token) : Option Text := t.value.or st.charbuff

/-- The number an `f` record is filed under. -/
def numberOf (w : Text) : UInt64 :=
  if c_str w = "txt".toList then st.txt_fd_counter else asUInt64 (atoi (c_str w))

def counterAfter (w : Text) : UInt64 :=
  if c_str w = "txt".toList then st.txt_fd_counter + 1 else st.txt_fd_counter

def afterFd (p : ℤ) (w : Text) : LsofLoop where
  procMap := st.procMap.modify p
    (·.addFile (st.numberOf w) (UnlinkedFile.new T st.pid (st.numberOf w)))
  ulf := some (p,fileKey (st.numberOf w))
  pf := st.pf
  txt_fd_counter := st.counterAfter w
  pid := st.pid
  fid := st.numberOf w
  charbuff := some w
  strbuff := []

def afterFlags (p j : ℤ) (charbuff : Option Text) : LsofLoop :=
  { st with
    procMap := st.procMap.modify p fun pf =>
      { pf with ulFiles := pf.ulFiles.modify j (·.addAttribute .flags []) }
    charbuff := charbuff
    strbuff := [] }

def afterPid (w : Text) : LsofLoop :=
  { st with
    procMap := (st.procMap.insertNew (atoi (c_str w)) ProcFile.new).modify (atoi (c_str w))
      (·.addAttribute .pid (c_str w))
    pf := some (atoi (c_str w))
    pid := asUInt64 (atoi (c_str w))
    charbuff := some w
    strbuff := [] }

/-- What the switch does to the variables, given the value it works on. -/
def outcome (flag : Option LsofFlag) (value : Option Text) : Except Fault LsofLoop :=
  match flag with
  | some .fd =>
    match value with
    | none => .error .uninitialized
    | some w =>
      match st.pf with
      | none => .error .nullProcess
      | some p => .ok (st.afterFd T p w)
  | some .flags =>
    match st.ulf with
    | none => .error .nullFile
    | some (p,j) => .ok (st.afterFlags p j value)
  | some .pid =>
    match value with
    | none => .error .uninitialized
    | some w => .ok (st.afterPid w)
  | none => .ok { st with charbuff := value, strbuff := [] }

variable {T st}

theorem fileKey_atoi (w : Text) : fileKey (asUInt64 (atoi w)) = atoi w :=
  fileKey_asUInt64 (atoi_range w).1 (atoi_range w).2

/-- With an empty string stream, an iteration whose value fits the buffer is one outcome. -/
theorem iterate_eq {t : Token} (hs : st.strbuff = [])
    (hv : ∀ w, t.value = some w → w.length < bufferSize) :
    st.iterate T t = st.outcome T (LsofFlag.ofChar t.lsofid) (st.effective t) := by
  have hstore : st.store t = .ok { st with charbuff := st.effective t } := by
    unfold store effective
    cases h : t.value with
    | none => simp
    | some w => simp [hv w h]
  rw [iterate, hstore, ok_bind]
  unfold dispatch outcome
  cases LsofFlag.ofChar t.lsofid with
  | none => rfl
  | some flag =>
    cases flag with
    | fd =>
      cases he : st.effective t with
      | none => rfl
      | some w =>
        cases hp : st.pf with
        | none => simp [buffer, readFd]
        | some p => simp [buffer, readFd, hp, hs, afterFd, numberOf, counterAfter]
    | pid =>
      cases he : st.effective t with
      | none => rfl
      | some w => simp [buffer, readPid, hs, afterPid, fileKey_atoi]
    | flags =>
      cases hu : st.ulf with
      | none => simp [readFlags]
      | some q =>
        obtain ⟨p,j⟩ := q
        simp [readFlags, hu, hs, afterFlags]

theorem iterate_overflow {t : Token} {w : Text} (h : t.value = some w)
    (hw : bufferSize ≤ w.length) : st.iterate T t = .error .bufferOverflow := by
  simp [iterate, store, h, Nat.not_lt.mpr hw]

/-- A successful iteration is a successful outcome. -/
theorem outcome_of_iterate {t : Token} {st' : LsofLoop} (hs : st.strbuff = [])
    (h : st.iterate T t = .ok st') :
    st.outcome T (LsofFlag.ofChar t.lsofid) (st.effective t) = .ok st' := by
  rw [← iterate_eq hs, h]
  intro w hw
  by_contra hlen
  rw [iterate_overflow hw (Nat.not_lt.mp hlen)] at h
  cases h

theorem iterate_record (hs : st.strbuff = []) (r : Record) :
    st.iterate T r.token = st.outcome T (LsofFlag.ofChar r.id) (some r.value.text) := by
  apply iterate_eq hs
  intro w hw
  rw [← Option.some.inj hw]
  exact r.value.short

/-- Everything an iteration can do to the variables. -/
theorem outcome_cases {flag : Option LsofFlag} {value : Option Text} {st' : LsofLoop}
    (h : st.outcome T flag value = .ok st') :
    (flag = some .fd ∧ ∃ p w, st.pf = some p ∧ value = some w ∧ st' = st.afterFd T p w) ∨
    (flag = some .flags ∧ ∃ p j, st.ulf = some (p,j) ∧ st' = st.afterFlags p j value) ∨
    (flag = some .pid ∧ ∃ w, value = some w ∧ st' = st.afterPid w) ∨
    (flag = none ∧ st' = { st with charbuff := value, strbuff := [] }) := by
  unfold outcome at h
  split at h
  · split at h
    · cases h
    · split at h
      · cases h
      · rename_i w _ p hp
        cases h
        exact .inl ⟨rfl,p,w,hp,rfl,rfl⟩
  · split at h
    · cases h
    · rename_i p j hu
      cases h
      exact .inr (.inl ⟨rfl,p,j,hu,rfl⟩)
  · split at h
    · cases h
    · rename_i w
      cases h
      exact .inr (.inr (.inl ⟨rfl,w,rfl,rfl⟩))
  · cases h
    exact .inr (.inr (.inr ⟨rfl,rfl⟩))

end LsofLoop

/-- A file stands under its own descriptor, in the process it names. -/
def UnlinkedFile.AtKey (u : UnlinkedFile) (k j : ℤ) : Prop := u.pid = asUInt32 k ∧ u.fid = asUInt32 j

/-- A process stands under its own number: its member, its PID attributes and its files. -/
structure ProcFile.AtKey (p : ProcFile) (k : ℤ) : Prop where
  pid : p.pid = asUInt32 k
  text : ∀ v, (CphfId.pid,v) ∈ p.attributes → atoi (c_str v) = k
  files : ∀ j u, p.ulFiles.find? j = some u → u.AtKey k j

namespace ProcFile
variable {p : ProcFile} {k : ℤ}

theorem AtKey.addFile (h : p.AtKey k) {n : UInt64} {u : UnlinkedFile}
    (hu : u.AtKey k (fileKey n)) : (p.addFile n u).AtKey k := by
  refine ⟨h.pid,h.text,?_⟩
  intro j v hv
  simp only [ProcFile.addFile, OMap.find?_insertNew] at hv
  split_ifs at hv with hj
  · rw [hj]
    cases hold : p.ulFiles.find? (fileKey n) with
    | some w =>
      -- a file that is there already stays
      simp only [hold, Option.getD_some, Option.some.injEq] at hv
      rw [← hv]
      exact h.files _ w hold
    | none =>
      simp only [hold, Option.getD_none, Option.some.injEq] at hv
      rw [← hv]
      exact hu
  · exact h.files j v hv

theorem AtKey.modifyFile (h : p.AtKey k) (i : ℤ) {f : UnlinkedFile → UnlinkedFile}
    (hf : ∀ u, u.AtKey k i → (f u).AtKey k i) :
    { p with ulFiles := p.ulFiles.modify i f }.AtKey k := by
  refine ⟨h.pid,h.text,?_⟩
  intro j u hu
  simp only [OMap.find?_modify] at hu
  split_ifs at hu with hj
  · obtain ⟨v,hv,rfl⟩ := Option.map_eq_some_iff.mp hu
    subst hj
    exact hf v (h.files j v hv)
  · exact h.files j u hu

/-- A PID attribute gives a process its number; what it held before must be under it. -/
theorem atKey_addPid {w : Text}
    (ht : ∀ v, (CphfId.pid,v) ∈ p.attributes → atoi (c_str v) = atoi w)
    (hf : ∀ j u, p.ulFiles.find? j = some u → u.AtKey (atoi w) j) (hw : c_str w = w) :
    (p.addAttribute .pid w).AtKey (atoi w) := by
  refine ⟨by simp [ProcFile.addAttribute, hw],?_,by simpa using hf⟩
  intro v hv
  simp only [ProcFile.addAttribute, List.mem_append, List.mem_singleton, Prod.mk.injEq,
    true_and] at hv
  rcases hv with hv | rfl
  · exact ht v hv
  · rw [hw]

end ProcFile

/-- The store's identifiers agree, and the loop's pointers point into it. -/
structure LsofLoop.Consistent (st : LsofLoop) : Prop where
  strbuff : st.strbuff = []
  procs : ∀ k p, st.procMap.find? k = some p → p.AtKey k
  pf : ∀ k, st.pf = some k → k = fileKey st.pid ∧ ∃ p, st.procMap.find? k = some p
  ulf : ∀ k j, st.ulf = some (k,j) →
    ∃ p u, st.procMap.find? k = some p ∧ p.ulFiles.find? j = some u

namespace LsofLoop
variable {T : UInt64} {st st' : LsofLoop}

theorem init_consistent (T : UInt64) : (init T ∅).Consistent where
  strbuff := rfl
  procs k p h := by simp [init] at h
  pf k h := by simp [init] at h
  ulf k j h := by simp [init] at h

theorem find?_afterFd {p : ℤ} {pf : ProcFile} (hf : st.procMap.find? p = some pf) (w : Text)
    (k : ℤ) : (st.afterFd T p w).procMap.find? k = if k = p then
      some (pf.addFile (st.numberOf w) (UnlinkedFile.new T st.pid (st.numberOf w)))
      else st.procMap.find? k := by
  simp [afterFd, OMap.find?_modify, hf]

theorem find?_afterFlags (p j : ℤ) (charbuff : Option Text) (k : ℤ) :
    (st.afterFlags p j charbuff).procMap.find? k = if k = p then
      (st.procMap.find? p).map (fun pf =>
        { pf with ulFiles := pf.ulFiles.modify j (·.addAttribute .flags []) })
      else st.procMap.find? k := by
  simp [afterFlags, OMap.find?_modify]

theorem find?_afterPid (w : Text) (k : ℤ) :
    (st.afterPid w).procMap.find? k = if k = atoi (c_str w) then
      some (((st.procMap.find? (atoi (c_str w))).getD ProcFile.new).addAttribute .pid (c_str w))
      else st.procMap.find? k := by
  simp only [afterPid, OMap.find?_modify, OMap.find?_insertNew_self, Option.map_some]
  split_ifs with he
  · rfl
  · rw [OMap.find?_insertNew, if_neg he]

/-- Filing a record under the current process keeps the store in agreement. -/
theorem afterFd_consistent (h : st.Consistent) {p : ℤ} (hp : st.pf = some p) (w : Text) :
    (st.afterFd T p w).Consistent := by
  obtain ⟨hk,pf,hf⟩ := h.pf p hp
  constructor
  · rfl
  · intro k q hq
    rw [find?_afterFd hf] at hq
    split_ifs at hq with he
    · cases hq
      subst he
      apply (h.procs k pf hf).addFile
      rw [hk]
      simp [UnlinkedFile.AtKey]
    · exact h.procs k q hq
  · intro k hk'
    refine ⟨(h.pf k hk').1,?_⟩
    rw [find?_afterFd hf]
    split_ifs
    · exact ⟨_,rfl⟩
    · exact (h.pf k hk').2
  · intro k j hu
    simp only [afterFd, Option.some.injEq, Prod.mk.injEq] at hu
    obtain ⟨rfl,rfl⟩ := hu
    exact ⟨_,_,(find?_afterFd hf w _).trans (if_pos rfl),OMap.find?_insertNew_self _ _ _⟩

theorem afterFlags_consistent (h : st.Consistent) {p j : ℤ} (charbuff : Option Text) :
    (st.afterFlags p j charbuff).Consistent := by
  constructor
  · rfl
  · intro k q hq
    rw [find?_afterFlags] at hq
    split_ifs at hq with he
    · obtain ⟨pf,hf,rfl⟩ := Option.map_eq_some_iff.mp hq
      subst he
      exact (h.procs k pf hf).modifyFile j fun u hu => by simpa [UnlinkedFile.AtKey] using hu
    · exact h.procs k q hq
  · intro k hk
    refine ⟨(h.pf k hk).1,?_⟩
    obtain ⟨q,hq⟩ := (h.pf k hk).2
    rw [find?_afterFlags]
    split_ifs with he
    · subst he
      simp [hq]
    · exact ⟨q,hq⟩
  · intro k i hu
    obtain ⟨q,u,hq,hf⟩ := h.ulf k i hu
    rw [find?_afterFlags]
    split_ifs with he
    · subst he
      rw [hq]
      by_cases hi : i = j
      · subst hi
        exact ⟨_,u.addAttribute .flags [],rfl,by simp [OMap.find?_modify, hf]⟩
      · exact ⟨_,u,rfl,by simp [OMap.find?_modify, hi, hf]⟩
    · exact ⟨q,u,hq,hf⟩

theorem afterPid_consistent (h : st.Consistent) (w : Text) : (st.afterPid w).Consistent := by
  constructor
  · rfl
  · intro k q hq
    rw [find?_afterPid] at hq
    split_ifs at hq with he
    · cases hq
      subst he
      cases hold : st.procMap.find? (atoi (c_str w)) with
      | some q =>
        have ha := h.procs _ q hold
        exact ProcFile.atKey_addPid ha.text ha.files (by simp)
      | none =>
        exact ProcFile.atKey_addPid (by simp [ProcFile.new]) (by simp [ProcFile.new]) (by simp)
    · exact h.procs k q hq
  · intro k hk
    simp only [afterPid, Option.some.injEq] at hk
    subst hk
    exact ⟨(fileKey_atoi _).symm,_,(find?_afterPid w _).trans (if_pos rfl)⟩
  · intro k j hu
    obtain ⟨q,u,hq,hf⟩ := h.ulf k j hu
    rw [find?_afterPid]
    split_ifs with he
    · subst he
      exact ⟨_,u,rfl,by simpa [hq] using hf⟩
    · exact ⟨q,u,hq,hf⟩

/-- Every iteration keeps the identifiers of the store in agreement. -/
theorem iterate_consistent {t : Token} (h : st.Consistent) (hr : st.iterate T t = .ok st') :
    st'.Consistent := by
  rcases outcome_cases (outcome_of_iterate h.strbuff hr) with
    ⟨_,p,w,hp,_,rfl⟩ | ⟨_,p,j,_,rfl⟩ | ⟨_,w,_,rfl⟩ | ⟨_,rfl⟩
  · exact afterFd_consistent h hp w
  · exact afterFlags_consistent h _
  · exact afterPid_consistent h w
  · exact ⟨rfl,h.procs,h.pf,h.ulf⟩

end LsofLoop
end Cphf
