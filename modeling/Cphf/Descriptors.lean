import Cphf.Lsof.ProcessSets
import Cphf.Readers.FileStat

/-! From the field stream to the path that is read: a descriptor must come out as
`/proc/PID/fd/N`, and the program text as `/proc/PID/exe`. -/
namespace Cphf
open CLib

/-- The value of an `f` record. -/
inductive Descriptor
  | num (n : Fin (2^31))
  | txt

/-- A process in the stream: its number, and what it holds open. -/
structure LsofProc where
  pid : Fin (2^31)
  fds : List Descriptor

lemma decimal_short {n : ℕ} (h : n < 2^31) : (decimal n).length < bufferSize := by
  have hl : (decimal n).length ≤ 10 := (Nat.length_toDigits_le_iff (by decide) (by decide)).mpr (by omega)
  unfold bufferSize
  omega

def numberValue (n : Fin (2^31)) : Value := ⟨decimal n,decimal_isWord n,decimal_short n.isLt⟩

def Descriptor.value : Descriptor → Value
  | num n => numberValue n
  | txt => ⟨"txt".toList,by decide,by decide⟩

def Descriptor.fileSet (d : Descriptor) : FileSet := ⟨d.value,none⟩

def LsofProc.set (P : LsofProc) : ProcSet := ⟨numberValue P.pid,P.fds.map Descriptor.fileSet⟩

/-- The path a record stands for. -/
def LsofProc.path (P : LsofProc) : Descriptor → Text
  | .num n => "/proc/".toList ++ decimal P.pid ++ ("/fd/".toList ++ decimal n)
  | .txt => "/proc/".toList ++ decimal P.pid ++ "/exe".toList

/-- For every `f` record, the pair `addFileAttributes` passes on makes `formPath` return the
path the record stands for. -/
def PathsExact (T : UInt64) (ps : List LsofProc) : Prop :=
  ∃ m, bufferedRead T ∅ (stream (ps.map LsofProc.set)) = .ok m ∧
    (ps.flatMap fun P => P.fds.map fun d => (P,d)).Forall₂ (fun r e => ∃ pf,
        m.find? e.1 = some pf ∧ (pf.ulFiles.find? e.2).isSome ∧
        formPath T (pf.passedOn e.2).2 (pf.passedOn e.2).1.toUInt64 = r.1.path r.2)
      (entriesGiven T (stream (ps.map LsofProc.set)))

/-- The number of `txt` records. -/
def txtRecords (ps : List LsofProc) : ℕ :=
  txtCount ((ps.map LsofProc.set).flatMap ProcSet.files)

/-- The `i`-th `txt` record is still above the threshold when its number is narrowed. -/
def Marked (T : UInt64) (i : ℕ) : Prop := T < (T + 1 + UInt64.ofNat i).toUInt32.toUInt64

section
variable {T : UInt64}

/-- All of the first `n` are exactly when none of them wraps. -/
theorem marked_iff (T : UInt64) (n : ℕ) :
    (∀ i < n, Marked T i) ↔ n = 0 ∨ T.toNat + n < 2^32 := by
  have hiff : ∀ i, Marked T i ↔ T.toNat < (T + 1 + UInt64.ofNat i).toUInt32.toNat := fun i => by
    rw [Marked, UInt64.lt_iff_toNat_lt, UInt32.toNat_toUInt64]
  simp only [hiff]
  constructor
  · intro h
    by_contra hn
    rw [not_or] at hn
    obtain ⟨h0,hle⟩ := hn
    have hT := T.toNat_lt
    by_cases hlarge : 2^32 ≤ T.toNat
    · have := (T + 1 + UInt64.ofNat 0).toUInt32.toNat_lt
      have := h 0 (by omega)
      omega
    · -- the record whose number is `2^32` is narrowed to zero
      have hi := h (2^32 - 1 - T.toNat) (by omega)
      rw [UInt64.toNat_toUInt32, UInt64.toNat_add, UInt64.toNat_add, UInt64.toNat_ofNat'] at hi
      simp only [UInt64.toNat_one] at hi
      omega
  · rintro (rfl | h) i hi
    · omega
    · rw [txt_toNat (by omega)]
      omega

lemma suffix_ne (n : ℕ) : "/exe".toList ≠ "/fd/".toList ++ decimal n := by
  intro h
  have := (List.cons.inj (List.cons.inj h).2).1
  exact absurd this (by decide)

lemma numberValue_c_str (n : Fin (2^31)) : c_str (numberValue n).text = decimal n := by
  apply c_str_of_no_nul
  intro h
  exact absurd (isDigit_of_mem_decimal h) (by decide)

lemma atoi_numberValue (n : Fin (2^31)) : atoi (c_str (numberValue n).text) = n := by
  rw [numberValue_c_str, atoi_decimal n.isLt]

lemma num_isTxt (n : Fin (2^31)) : (Descriptor.num n).fileSet.isTxt = false := by
  simp only [FileSet.isTxt, decide_eq_false_iff_not]
  intro h
  change c_str (numberValue n).text = _ at h
  rw [numberValue_c_str] at h
  have hd := isDigit_of_mem_decimal (n := n) (c := 't') (h ▸ by decide)
  exact absurd hd (by decide)

/-- A descriptor is taken for one exactly when it does not exceed the threshold. -/
theorem formPath_num (P : LsofProc) (n : Fin (2^31)) (seen : ℕ) :
    formPath T (asUInt32 P.set.number) (asUInt32 (fileKey
      ((Descriptor.num n).fileSet.number T seen))).toUInt64 = P.path (.num n) ↔ n.val ≤ T.toNat := by
  have hn := n.isLt
  have hp := P.pid.isLt
  have hpid : (asUInt32 P.set.number).toNat = P.pid := by
    rw [ProcSet.number, LsofProc.set, atoi_numberValue, toNat_asUInt32]
    omega
  have hfid : (asUInt32 (fileKey ((Descriptor.num n).fileSet.number T seen))).toUInt64.toNat = n := by
    have hv : atoi (c_str (Descriptor.num n).fileSet.fd.text) = n := atoi_numberValue n
    rw [FileSet.number, num_isTxt, if_neg (by decide), hv, asUInt32_fileKey, asUInt64_toUInt32,
      UInt32.toNat_toUInt64, toNat_asUInt32]
    omega
  unfold formPath LsofProc.path
  rw [hpid, hfid, List.append_cancel_left_eq]
  split_ifs with h
  · rw [UInt64.lt_iff_toNat_lt, hfid] at h
    simp only [suffix_ne, false_iff]
    omega
  · rw [UInt64.lt_iff_toNat_lt, hfid] at h
    simp only [true_iff]
    omega

theorem formPath_txt (P : LsofProc) (seen : ℕ) :
    formPath T (asUInt32 P.set.number) (asUInt32 (fileKey
      (Descriptor.txt.fileSet.number T seen))).toUInt64 = P.path .txt ↔ Marked T seen := by
  have hp := P.pid.isLt
  have hpid : (asUInt32 P.set.number).toNat = P.pid := by
    rw [ProcSet.number, LsofProc.set, atoi_numberValue, toNat_asUInt32]
    omega
  have ht : Descriptor.txt.fileSet.isTxt = true := rfl
  unfold formPath LsofProc.path
  rw [hpid, List.append_cancel_left_eq, FileSet.number, ht, if_pos rfl, asUInt32_fileKey]
  unfold Marked
  split_ifs with h
  · exact iff_of_true rfl h
  · exact iff_of_false (suffix_ne _).symm h

/-- The paths of the records `ps` come out right under the keys of their process sets. -/
def PathOf (T : UInt64) (r : LsofProc × Descriptor) (e : ℤ × ℤ) : Prop :=
  formPath T (asUInt32 e.1) (asUInt32 e.2).toUInt64 = r.1.path r.2

lemma forall_lt_add {P : ℕ → Prop} {seen m n : ℕ} :
    (∀ i < m + n, P (seen + i)) ↔ (∀ i < m, P (seen + i)) ∧ ∀ i < n, P (seen + m + i) := by
  constructor
  · intro h
    exact ⟨fun i hi => h i (by omega),fun i hi => Nat.add_assoc _ _ _ ▸ h (m + i) (by omega)⟩
  · rintro ⟨h,h'⟩ i hi
    by_cases him : i < m
    · exact h i him
    · have := h' (i - m) (by omega)
      rwa [show seen + m + (i - m) = seen + i by omega] at this

lemma forall₂_append_iff {α β : Type} {R : α → β → Prop} {l r : List α} {l' r' : List β}
    (h : l.length = l'.length) :
    (l ++ r).Forall₂ R (l' ++ r') ↔ l.Forall₂ R l' ∧ r.Forall₂ R r' := by
  induction l generalizing l' with
  | nil => simp [List.eq_nil_of_length_eq_zero h.symm]
  | cons a l ih =>
    cases l' with
    | nil => cases h
    | cons b l' => simp [ih (Nat.succ.inj h), and_assoc]

theorem pathsOf_files (P : LsofProc) (seen : ℕ) (fds : List Descriptor) :
    (fds.map fun d => (P,d)).Forall₂ (PathOf T)
        ((fileKeys T seen (fds.map Descriptor.fileSet)).map fun j => (P.set.number,j)) ↔
      (∀ n, Descriptor.num n ∈ fds → n.val ≤ T.toNat) ∧
      ∀ i < txtCount (fds.map Descriptor.fileSet), Marked T (seen + i) := by
  induction fds generalizing seen with
  | nil => simp [fileKeys, txtCount]
  | cons d fds ih =>
    rw [List.map_cons, List.map_cons, fileKeys, List.map_cons, List.forall₂_cons, ih,
      txtCount_cons _ (fds.map _), txtCount_singleton]
    cases d with
    | num n =>
      rw [PathOf, formPath_num, num_isTxt, if_neg (by decide), Nat.zero_add, Nat.add_zero]
      simp only [List.mem_cons, Descriptor.num.injEq, forall_eq_or_imp, and_assoc]
    | txt =>
      have ht : Descriptor.txt.fileSet.isTxt = true := rfl
      rw [PathOf, formPath_txt, ht, if_pos rfl, forall_lt_add]
      simp only [List.mem_cons, reduceCtorEq, false_or, Nat.lt_one_iff, forall_eq, Nat.add_zero]
      exact and_left_comm

theorem pathsOf_sets (seen : ℕ) (ps : List LsofProc) :
    (ps.flatMap fun P => P.fds.map fun d => (P,d)).Forall₂ (PathOf T)
        ((filed T seen (ps.map LsofProc.set)).flatMap fun e => e.2.map fun j => (e.1.number,j)) ↔
      (∀ P ∈ ps, ∀ n, Descriptor.num n ∈ P.fds → n.val ≤ T.toNat) ∧
      ∀ i < txtRecords ps, Marked T (seen + i) := by
  induction ps generalizing seen with
  | nil => simp [filed, txtRecords, txtCount]
  | cons P ps ih =>
    have hcount : txtRecords (P :: ps) = txtCount P.set.files + txtRecords ps := by
      simp [txtRecords, txtCount]
    have hlen : (P.fds.map fun d => (P,d)).length =
        ((fileKeys T seen P.set.files).map fun j => (P.set.number,j)).length := by
      simp [LsofProc.set]
    rw [List.map_cons, filed, List.flatMap_cons, List.flatMap_cons, forall₂_append_iff hlen, ih,
      hcount, forall_lt_add, List.forall_mem_cons]
    have hfiles := pathsOf_files (T := T) P seen P.fds
    change _ ∧ _ ↔ _
    rw [show P.set.files = P.fds.map Descriptor.fileSet from rfl, hfiles]
    exact and_and_and_comm

/-- The pairs passed on give every record its own path exactly when no descriptor exceeds the
threshold and the numbers of the `txt` records do not wrap at `2^32`. -/
theorem pathsExact_iff (rlim_max : Option UInt64) (ps : List LsofProc) :
    PathsExact (init_TxtFD rlim_max) ps ↔
      (∀ P ∈ ps, ∀ n, Descriptor.num n ∈ P.fds → n.val ≤ (init_TxtFD rlim_max).toNat) ∧
      (txtRecords ps = 0 ∨ (init_TxtFD rlim_max).toNat + txtRecords ps < 2^32) := by
  obtain ⟨st,hst,hrun,hc,hl⟩ := bufferedReadState_stream (init_TxtFD rlim_max) (ps.map LsofProc.set)
  have hread : bufferedRead (init_TxtFD rlim_max) ∅ (stream (ps.map LsofProc.set)) =
      .ok st.procMap := by rw [bufferedRead, hst]; rfl
  have hgiven := entriesGiven_stream (init_TxtFD rlim_max) (ps.map LsofProc.set)
  rw [← marked_iff]
  have hsets := pathsOf_sets (T := init_TxtFD rlim_max) 0 ps
  simp only [Nat.zero_add] at hsets
  rw [← hsets, ← hgiven]
  have hpf : ∀ e ∈ entriesGiven (init_TxtFD rlim_max) (stream (ps.map LsofProc.set)), ∃ pf,
      st.procMap.find? e.1 = some pf ∧ (pf.ulFiles.find? e.2).isSome ∧ pf.pid = asUInt32 e.1 := by
    intro e he
    rw [hgiven, ← ledger_sets_files, ← hl.files] at he
    obtain ⟨u,hu⟩ := Option.isSome_iff_exists.mp he
    obtain ⟨pf,hp,hf⟩ := Option.bind_eq_some_iff.mp hu
    exact ⟨pf,hp,by rw [hf]; rfl,(hc.procs e.1 pf hp).pid⟩
  constructor
  · rintro ⟨m,hm,hall⟩
    cases hread.symm.trans hm
    rw [List.forall₂_iff_zip] at hall ⊢
    refine ⟨hall.1,fun {r e} hre => ?_⟩
    obtain ⟨pf,hp,_,hpath⟩ := hall.2 hre
    obtain ⟨pf',hp',_,hpid⟩ := hpf e (List.of_mem_zip hre).2
    cases hp.symm.trans hp'
    rwa [PathOf, ← hpid]
  · intro hall
    refine ⟨st.procMap,hread,?_⟩
    rw [List.forall₂_iff_zip] at hall ⊢
    refine ⟨hall.1,fun {r e} hre => ?_⟩
    obtain ⟨pf,hp,hf,hpid⟩ := hpf e (List.of_mem_zip hre).2
    refine ⟨pf,hp,hf,?_⟩
    have := hall.2 hre
    rwa [PathOf, ← hpid] at this

end

/-- A process with one descriptor, which is passed on as it is but comes out as another path. -/
lemma not_pathsExact_of_path {T : UInt64} {n : Fin (2^31)}
    (hread : (fun m : ProcMap => (m.find? 1).map ProcFile.pid) <$>
      bufferedRead T ∅ (stream [LsofProc.set ⟨1,[.num n]⟩]) = .ok (some 1))
    (hgiven : entriesGiven T (stream [LsofProc.set ⟨1,[.num n]⟩]) = [(1,(n : ℤ))])
    (hpath : formPath T 1 (asUInt32 (n : ℤ)).toUInt64 ≠ LsofProc.path ⟨1,[.num n]⟩ (.num n)) :
    ¬ PathsExact T [⟨1,[.num n]⟩] := by
  rintro ⟨m,hm,hall⟩
  obtain ⟨pf,hpf,_,hexact⟩ := (List.forall₂_cons.mp (hgiven ▸ hall)).1
  have hs : _ = Except.ok ((m.find? 1).map ProcFile.pid) :=
    congrArg (Functor.map fun m => (m.find? 1).map ProcFile.pid) hm
  have hpid := Except.ok.inj (hread.symm.trans hs)
  rw [hpf, Option.map_some, Option.some.injEq] at hpid
  rw [ProcFile.passedOn, ← hpid] at hexact
  exact hpath hexact

/-- Without a limit the threshold wraps to zero, and every descriptor passes for the text; under a
limit of 1024 one of a process with a higher limit does. -/
theorem not_pathsExact_infinity :
    ¬ PathsExact (init_TxtFD (some (2^64-1))) [⟨1,[.num 3]⟩] ∧
    ¬ PathsExact (init_TxtFD (some 1024)) [⟨1,[.num 2000]⟩] :=
  ⟨not_pathsExact_of_path (by decide +kernel) (by decide +kernel) (by decide +kernel),
    not_pathsExact_of_path (by decide +kernel) (by decide +kernel) (by decide +kernel)⟩

end Cphf
