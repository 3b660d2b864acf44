import Cphf.Lsof.Census
import Cphf.Lsof.Flags
import Cphf.Lsof.OneEntry
import Cphf.Descriptors
import Cphf.Alike

/-! From the output of `lsof` to the listing a reader of the report sees: the processes in the
order of their numbers, each with its descriptors in order and then its program texts. The store
shows this listing whatever order `lsof` wrote it in. -/
namespace Cphf
open CLib

/-- The descriptors of a process. -/
def LsofProc.nums (P : LsofProc) : List ℕ :=
  P.fds.filterMap fun
    | .num n => some n.val
    | .txt => none

def LsofProc.txts (P : LsofProc) : ℕ := txtCount P.set.files

/-- The paths of a process's files, as they are listed. -/
def LsofProc.listing (P : LsofProc) : List Text :=
  ((P.nums.mergeSort (· ≤ ·)).map fun n =>
      "/proc/".toList ++ decimal P.pid ++ ("/fd/".toList ++ decimal n)) ++
    List.replicate P.txts ("/proc/".toList ++ decimal P.pid ++ "/exe".toList)

/-- The processes, as they are listed. -/
def inOrder (ps : List LsofProc) : List LsofProc := ps.mergeSort fun P Q => P.pid.val ≤ Q.pid.val

/-- Processes that `lsof` can list: none twice, no descriptor of one twice or beyond the
threshold, and room for the program texts above it. -/
structure Listable (T : UInt64) (ps : List LsofProc) : Prop where
  pids : (ps.map LsofProc.pid).Nodup
  fds : ∀ P ∈ ps, P.nums.Nodup
  below : ∀ P ∈ ps, ∀ n ∈ P.nums, n ≤ T.toNat
  room : T.toNat + txtRecords ps < 2^31

/-- The entry of a store under which a process is listed. -/
structure Listed (T : UInt64) (e : ℤ × ProcFile) (P : LsofProc) : Prop where
  key : e.1 = P.pid.val
  pid : e.2.pid = asUInt32 P.pid.val
  attributes : e.2.attributes = [(.pid,decimal P.pid)]
  files : e.2.ulFiles.entries.Forall₂
    (fun f path => examined T e.2.pid f.1 = path ∧ f.2.attributes = []) P.listing

section
variable {T : UInt64}

/-- The path that is examined for a number that is an `int`. -/
theorem examined_eq (P : LsofProc) {j : ℕ} (hj : j < 2^31) :
    examined T (asUInt32 P.pid.val) j = "/proc/".toList ++ decimal P.pid ++
      if T.toNat < j then "/exe".toList else "/fd/".toList ++ decimal j := by
  have hp := P.pid.isLt
  have hpid : (asUInt32 P.pid.val).toNat = P.pid := by
    rw [toNat_asUInt32]
    omega
  have hfid : (asUInt32 (j : ℤ)).toUInt64.toNat = j := by
    rw [UInt32.toNat_toUInt64, toNat_asUInt32]
    omega
  simp only [examined, formPath, hpid, UInt64.lt_iff_toNat_lt, hfid]

/-- The numbers the files of a process are filed under, ascending. -/
def LsofProc.keys (T : UInt64) (seen : ℕ) (P : LsofProc) : List ℤ :=
  ((P.nums.mergeSort (· ≤ ·)).map fun n : ℕ => (n : ℤ)) ++
    (List.range P.txts).map fun i => ((T.toNat + 1 + (seen + i) : ℕ) : ℤ)

theorem mem_nums {P : LsofProc} {n : ℕ} :
    n ∈ P.nums ↔ ∃ m : Fin (2^31), Descriptor.num m ∈ P.fds ∧ m.val = n := by
  unfold LsofProc.nums
  rw [List.mem_filterMap]
  constructor
  · rintro ⟨d,hd,he⟩
    cases d with
    | num m => exact ⟨m,hd,Option.some.inj he⟩
    | txt => cases he
  · rintro ⟨m,hm,rfl⟩
    exact ⟨.num m,hm,rfl⟩

theorem mem_keys {P : LsofProc} {seen : ℕ} (h : T.toNat + seen + P.txts < 2^31) (j : ℤ) :
    j ∈ P.keys T seen ↔ j ∈ fileKeys T seen P.set.files := by
  have htxt : ∀ i < P.txts, fileKey (T + 1 + UInt64.ofNat (seen + i)) =
      ((T.toNat + 1 + (seen + i) : ℕ) : ℤ) := by
    intro i hi
    rw [fileKey, txt_toNat (by omega)]
    exact asInt_of_lt (by omega) (by omega)
  rw [mem_fileKeys, LsofProc.keys, List.mem_append]
  refine or_congr ?_ ?_
  · simp only [List.mem_map, List.mem_mergeSort, mem_nums]
    constructor
    · rintro ⟨_,⟨n,hn,rfl⟩,rfl⟩
      exact ⟨(Descriptor.num n).fileSet,List.mem_map_of_mem hn,num_isTxt n,
        (atoi_numberValue n).symm⟩
    · rintro ⟨s,hs,ht,rfl⟩
      obtain ⟨d,hd,rfl⟩ := List.mem_map.mp hs
      cases d with
      | num n => exact ⟨n,⟨n,hd,rfl⟩,(atoi_numberValue n).symm⟩
      | txt => cases ht
  · simp only [List.mem_map, List.mem_range]
    constructor
    · rintro ⟨i,hi,he⟩
      exact ⟨i,hi,by rw [← he, htxt i hi]⟩
    · rintro ⟨i,hi,he⟩
      exact ⟨i,hi,by rw [he, htxt i hi]⟩

theorem keys_ascend {P : LsofProc} (hn : P.nums.Nodup) (hb : ∀ n ∈ P.nums, n ≤ T.toNat)
    (seen : ℕ) : (P.keys T seen).Pairwise (· < ·) := by
  have hsort : (P.nums.mergeSort (· ≤ ·)).Pairwise (· < ·) := by
    have hle := (List.sortedLE_mergeSort (l := P.nums)).pairwise
    have hnd := (List.mergeSort_perm P.nums (· ≤ ·)).nodup_iff.mpr hn
    exact (hle.and hnd).imp fun h => lt_of_le_of_ne h.1 h.2
  unfold LsofProc.keys
  rw [List.pairwise_append]
  refine ⟨?_,?_,?_⟩
  · rw [List.pairwise_map]
    exact hsort.imp fun h => Int.ofNat_lt.mpr h
  · rw [List.pairwise_map]
    apply List.pairwise_lt_range.imp
    intro i j hij
    exact Int.ofNat_lt.mpr (by omega)
  · intro a ha b hb'
    obtain ⟨n,hn',rfl⟩ := List.mem_map.mp ha
    obtain ⟨i,_,rfl⟩ := List.mem_map.mp hb'
    have := hb n (List.mem_mergeSort.mp hn')
    exact Int.ofNat_lt.mpr (by omega)

/-- Read under their numbers, the files are those listed. -/
theorem keys_listing {P : LsofProc} {seen : ℕ} (h : T.toNat + seen + P.txts < 2^31)
    (hb : ∀ n ∈ P.nums, n ≤ T.toNat) :
    (P.keys T seen).map (examined T (asUInt32 P.pid.val)) = P.listing := by
  unfold LsofProc.keys LsofProc.listing
  rw [List.map_append, List.map_map, List.map_map]
  congr 1
  · apply List.map_congr_left
    intro n hn
    have hle := hb n (List.mem_mergeSort.mp hn)
    obtain ⟨m,_,rfl⟩ := mem_nums.mp (List.mem_mergeSort.mp hn)
    have he := examined_eq (T := T) P m.isLt
    rw [if_neg (by omega)] at he
    exact he
  · rw [List.eq_replicate_iff]
    refine ⟨by simp,fun path hpath => ?_⟩
    obtain ⟨i,hi,rfl⟩ := List.mem_map.mp hpath
    have hi := List.mem_range.mp hi
    have he := examined_eq (T := T) P (j := T.toNat + 1 + (seen + i)) (by omega)
    rw [if_pos (by omega)] at he
    exact he

theorem set_number (P : LsofProc) : P.set.number = P.pid.val := atoi_numberValue P.pid

/-- The processes a stream of process sets names. -/
theorem setRecords_naming (ps : List LsofProc) :
    (setRecords (ps.map LsofProc.set)).filterMap Record.naming =
      ps.map fun P => ((P.pid.val : ℤ),decimal P.pid) := by
  induction ps with
  | nil => rfl
  | cons P ps ih =>
    have hfiles : (P.set.files.flatMap FileSet.records).filterMap Record.naming = [] := by
      rw [List.filterMap_eq_nil_iff]
      intro r hr
      obtain ⟨s,hs,hr⟩ := List.mem_flatMap.mp hr
      obtain ⟨d,_,rfl⟩ := List.mem_map.mp hs
      rw [List.mem_singleton.mp hr]
      rfl
    have hpid : Record.naming ⟨'p',P.set.pid,rfl⟩ = some ((P.pid.val : ℤ),decimal P.pid) := by
      have ht : Record.text ⟨'p',P.set.pid,rfl⟩ = decimal P.pid := numberValue_c_str P.pid
      rw [Record.naming, ht, atoi_decimal P.pid.isLt]
      rfl
    change List.filterMap _ (P.set.records ++ setRecords (ps.map LsofProc.set)) = _
    rw [List.filterMap_append, ih, ProcSet.records, List.filterMap_cons_some hpid, hfiles]
    rfl

/-- The numbers filed under a process are those of its own records. -/
theorem mem_filed {ps : List LsofProc} (h : Listable T ps) {P : LsofProc} (hP : P ∈ ps) :
    ∃ seen, T.toNat + seen + P.txts < 2^31 ∧ ∀ j,
      ((P.pid.val : ℤ),j) ∈ (ledger T (setRecords (ps.map LsofProc.set))).files ↔
        j ∈ fileKeys T seen P.set.files := by
  have hmem : P.set ∈ (filed T 0 (ps.map LsofProc.set)).map Prod.fst := by
    rw [filed_fst]
    exact List.mem_map_of_mem hP
  obtain ⟨e,he,hset⟩ := List.mem_map.mp hmem
  obtain ⟨seen,hkeys,hle⟩ := filed_spec he
  have hroom := h.room
  rw [hset] at hkeys hle
  refine ⟨seen,by unfold LsofProc.txts txtRecords at *; omega,fun j => ?_⟩
  rw [ledger_sets_files, List.mem_flatMap]
  have hnodup : ((filed T 0 (ps.map LsofProc.set)).map fun e => e.1.number).Nodup := by
    have hfst : (filed T 0 (ps.map LsofProc.set)).map (fun e => e.1.number) =
        (ps.map LsofProc.pid).map fun n => (n.val : ℤ) := by
      change (filed T 0 (ps.map LsofProc.set)).map (ProcSet.number ∘ Prod.fst) = _
      rw [← List.map_map, filed_fst, List.map_map, List.map_map]
      exact List.map_congr_left fun P _ => set_number P
    rw [hfst]
    exact h.pids.map fun a b hab => Fin.ext (Int.ofNat_inj.mp hab)
  constructor
  · rintro ⟨e',he',hj⟩
    obtain ⟨i,hi,hij⟩ := List.mem_map.mp hj
    obtain ⟨hnumber,rfl⟩ := Prod.mk.inj hij
    have heq : e' = e := by
      apply List.inj_on_of_nodup_map hnodup he' he
      rw [hnumber, hset, set_number]
    rw [← hkeys, ← heq]
    exact hi
  · intro hj
    exact ⟨e,he,List.mem_map.mpr ⟨j,hkeys ▸ hj,by rw [hset, set_number]⟩⟩

/-- The process is stored under its number with its files in their order. -/
theorem find?_listed {ps : List LsofProc} (h : Listable T ps) {st : LsofLoop}
    (hrun : run (readRecord T) (LsofLoop.init T ∅) (setRecords (ps.map LsofProc.set)) = .ok st)
    {P : LsofProc} (hP : P ∈ ps) {p : ProcFile} (hp : st.procMap.find? P.pid.val = some p) :
    Listed T (P.pid.val,p) P := by
  obtain ⟨hc,hl⟩ := LsofLoop.run_refines hrun
  have hpid : p.pid = asUInt32 P.pid.val := (hc.procs _ p hp).pid
  have hattributes : p.attributes = [(.pid,decimal P.pid)] := by
    have hk := (LsofLoop.run_counted hrun).store.procs P.pid.val
    have htexts : (census T (setRecords (ps.map LsofProc.set))).texts P.pid.val =
        [decimal P.pid] := by
      have hkeys : (ps.map fun Q => (Q.pid.val : ℤ)).Nodup := by
        have hinj := h.pids.map (f := fun n : Fin (2^31) => (n.val : ℤ)) fun a b hab =>
          Fin.ext (Int.ofNat_inj.mp hab)
        rwa [List.map_map] at hinj
      rw [Census.texts, census_named, setRecords_naming, List.filter_map, List.map_map]
      have hone := filter_eq_singleton hkeys hP
      simp only [Function.comp_def]
      rw [hone]
      rfl
    rw [hp, Census.procAt, htexts, if_neg (by simp), Option.map_some, Option.some.injEq] at hk
    exact (Prod.mk.inj hk).2
  obtain ⟨seen,hroom,hfiled⟩ := mem_filed h hP
  have hkeys : p.ulFiles.entries.map Prod.fst = P.keys T seen := by
    apply p.ulFiles.sorted.eq_of_mem_iff (keys_ascend (h.fds P hP) (h.below P hP) seen)
    intro j
    rw [mem_keys hroom, ← hfiled, ← hl.files, Option.isSome_iff_ne_none]
    simp only [fileAt, hp, Option.bind_some]
    rw [ne_eq, OMap.find?_eq_none, not_not]
  refine ⟨rfl,hpid,hattributes,?_⟩
  have hlisting := keys_listing hroom (h.below P hP)
  rw [← hkeys, List.map_map] at hlisting
  rw [← hlisting, List.forall₂_map_right_iff, List.forall₂_same]
  rintro ⟨j,u⟩ hu
  refine ⟨by rw [hpid]; rfl,?_⟩
  -- no flags were asked for
  have hat : fileAt st.procMap (P.pid.val,j) = some u := by
    simp [fileAt, hp, OMap.mem_entries.mp hu]
  rw [List.eq_nil_iff_forall_not_mem]
  intro a ha
  obtain ⟨_,r,hr,hf⟩ := LsofLoop.run_flagsEmpty hrun _ u hat a ha
  obtain ⟨s,hs,f,hf,hne⟩ := mem_setRecords_flags hr hf
  obtain ⟨Q,_,rfl⟩ := List.mem_map.mp hs
  obtain ⟨d,_,rfl⟩ := List.mem_map.mp hf
  exact hne rfl

theorem inOrder_ascend {ps : List LsofProc} (h : (ps.map LsofProc.pid).Nodup) :
    ((inOrder ps).map fun P => (P.pid.val : ℤ)).Pairwise (· < ·) := by
  have hle : (inOrder ps).Pairwise fun P Q => decide (P.pid.val ≤ Q.pid.val) = true :=
    List.pairwise_mergeSort (fun P Q R => by simpa using le_trans)
      (fun P Q => by simpa using le_total _ _) ps
  have hnd : ((inOrder ps).map LsofProc.pid).Nodup :=
    ((List.mergeSort_perm ps _).map LsofProc.pid).nodup_iff.mpr h
  rw [List.pairwise_map]
  apply (hle.and (List.pairwise_map.mp hnd)).imp
  rintro P Q ⟨hPQ,hne⟩
  have hPQ' : P.pid.val ≤ Q.pid.val := by simpa using hPQ
  have hne' : P.pid.val ≠ Q.pid.val := fun he => hne (Fin.ext he)
  exact Int.ofNat_lt.mpr (lt_of_le_of_ne hPQ' hne')

/-- Whatever other fields stand between the records and whatever order `lsof` writes the processes
and their descriptors in, the store shows the listing. -/
theorem bufferedRead_listed {ps : List LsofProc} (h : Listable T ps) {rs : List Record}
    (hrs : rs.filter Record.known = setRecords (ps.map LsofProc.set)) :
    ∃ m, bufferedRead T ∅ (lines rs) = .ok m ∧ m.entries.Forall₂ (Listed T) (inOrder ps) := by
  obtain ⟨st,_,hrun,_,hl⟩ := bufferedReadState_stream T (ps.map LsofProc.set)
  refine ⟨st.procMap,?_,?_⟩
  · have hs : (LsofLoop.init T ∅).strbuff = [] := rfl
    rw [bufferedRead, bufferedReadState_lines]
    apply (run_known hs none rs).trans
    rw [hrs, hrun]
    rfl
  · have hsorted := inOrder_ascend h.pids
    have hkeys : st.procMap.entries.map Prod.fst = (inOrder ps).map fun P => (P.pid.val : ℤ) := by
      apply st.procMap.sorted.eq_of_mem_iff hsorted
      intro k
      have hk := hl.procs k
      rw [ledger_sets_procs] at hk
      rw [← not_not (a := k ∈ _), ← OMap.find?_eq_none, ← ne_eq, ← Option.isSome_iff_ne_none, hk]
      simp [inOrder, set_number]
    apply forall₂_of_map_eq hkeys
    rintro ⟨k,p⟩ he P hP hkP
    have hkP : k = P.pid.val := hkP
    subst hkP
    exact find?_listed h hrun (List.mem_mergeSort.mp hP) (OMap.mem_entries.mp he)

end
end Cphf
