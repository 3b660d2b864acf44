import Cphf.Lsof.ProcessSets
import Cphf.Lsof.Safety

/-! What `bufferedRead` builds, said without a store. A census of the records lists the names of
the processes, the numbers filed and the flags; each object of the store is read off it by its
key, so streams with the same census build the same store. -/
namespace Cphf
open CLib

/-- What the records of a stream come to: the number and text of each `p` record, the process
and the number of each `f` record, the entry of each `G` record, and how many files were `txt`. -/
structure Census where
  named : List (ℤ × Text)
  filed : List (ℤ × UInt64)
  flagged : List (ℤ × ℤ)
  txts : ℕ

namespace Census

def empty : Census := ⟨[],[],[],0⟩

/-- The number of an `f` record. -/
def number (T : UInt64) (c : Census) (text : Text) : UInt64 :=
  if text = "txt".toList then T + 1 + UInt64.ofNat c.txts else asUInt64 (atoi text)

/-- A record is about the process named last or the file filed last. -/
def step (T : UInt64) (c : Census) (r : Record) : Census :=
  match r.flag with
  | none => c
  | some .pid => { c with named := c.named ++ [(atoi r.text,r.text)] }
  | some .fd =>
    match c.named.getLast? with
    | none => c
    | some p => { c with
        filed := c.filed ++ [(p.1,c.number T r.text)]
        txts := if r.text = "txt".toList then c.txts + 1 else c.txts }
  | some .flags =>
    match c.filed.getLast? with
    | none => c
    | some f => { c with flagged := c.flagged ++ [(f.1,fileKey f.2)] }

/-- The texts a process was named with. -/
def texts (c : Census) (k : ℤ) : List Text := (c.named.filter (·.1 = k)).map Prod.snd

/-- What is stored of a process besides its files. -/
def procAt (c : Census) (k : ℤ) : Option (UInt32 × List CphfAttribute) :=
  if c.texts k = [] then none
  else some (asUInt32 k,(c.texts k).map fun t => (CphfId.pid,t))

/-- The first number filed under an entry makes its file; each `G` record brings empty flags. -/
def fileAt (T : UInt64) (c : Census) (e : ℤ × ℤ) : Option UnlinkedFile :=
  (c.filed.find? fun f => (f.1,fileKey f.2) = e).map fun f =>
    { UnlinkedFile.new T (asUInt64 f.1) f.2 with
      attributes := List.replicate (c.flagged.count e) (CphfId.flags,[]) }

/-- A store holds what the census says. -/
structure Describes (T : UInt64) (c : Census) (m : ProcMap) : Prop where
  procs : ∀ k, (m.find? k).map (fun p => (p.pid,p.attributes)) = c.procAt k
  files : ∀ e, Cphf.fileAt m e = c.fileAt T e

end Census

def census (T : UInt64) (rs : List Record) : Census := rs.foldl (Census.step T) Census.empty

theorem census_snoc (T : UInt64) (rs : List Record) (r : Record) :
    census T (rs ++ [r]) = (census T rs).step T r := by simp [census]

/-- What a `p` record names. -/
def Record.naming (r : Record) : Option (ℤ × Text) :=
  if r.flag = some .pid then some (atoi r.text,r.text) else none

theorem census_named (T : UInt64) (rs : List Record) :
    (census T rs).named = rs.filterMap Record.naming := by
  induction rs using List.reverseRecOn with
  | nil => rfl
  | append_singleton rs r ih =>
    rw [census_snoc, List.filterMap_append, ← ih, Census.step]
    split
    · rename_i hf
      simp [Record.naming, hf]
    · rename_i hf
      simp [Record.naming, hf]
    · rename_i hf
      split <;> simp [Record.naming, hf]
    · rename_i hf
      split <;> simp [Record.naming, hf]

namespace Census
variable {T : UInt64} {c : Census} {m m' : ProcMap}

/-- There is only one such store. -/
theorem Describes.eq (h : c.Describes T m) (h' : c.Describes T m') : m = m' := by
  apply OMap.ext_find?
  intro k
  have hk := (h.procs k).trans (h'.procs k).symm
  cases hp : m.find? k with
  | none =>
    rw [hp, Option.map_none] at hk
    rw [Option.map_eq_none_iff.mp hk.symm]
  | some p =>
    rw [hp, Option.map_some] at hk
    obtain ⟨q,hq,hpq⟩ := Option.map_eq_some_iff.mp hk.symm
    have hfiles : p.ulFiles = q.ulFiles := by
      apply OMap.ext_find?
      intro j
      have hj := (h.files (k,j)).trans (h'.files (k,j)).symm
      simpa [Cphf.fileAt, hp, hq] using hj
    rw [hq]
    cases p
    cases q
    simp only [Prod.mk.injEq] at hpq hfiles
    rw [hpq.1, hpq.2, hfiles]

end Census

/-- The loop's variables and store, as the census has them. -/
structure LsofLoop.Counted (T : UInt64) (st : LsofLoop) (c : Census) : Prop where
  pf : st.pf = c.named.getLast?.map Prod.fst
  pid : ∀ k, st.pf = some k → st.pid = asUInt64 k
  ulf : st.ulf = c.filed.getLast?.map fun f => (f.1,fileKey f.2)
  counter : st.txt_fd_counter = T + 1 + UInt64.ofNat c.txts
  flagged : ∀ e ∈ c.flagged, ∃ f ∈ c.filed, (f.1,fileKey f.2) = e
  store : c.Describes T st.procMap

namespace LsofLoop
variable {T : UInt64} {st st' : LsofLoop} {c : Census}

theorem init_counted (T : UInt64) : (init T ∅).Counted T .empty where
  pf := rfl
  pid _ h := by cases h
  ulf := rfl
  counter := by simp [init, Census.empty]
  flagged _ h := by cases h
  store := ⟨fun k => rfl,fun e => rfl⟩

theorem numberOf_counted (h : st.Counted T c) (w : Text) :
    st.numberOf w = c.number T (c_str w) := by
  unfold numberOf Census.number
  rw [h.counter]

theorem afterFd_counted (h : st.Counted T c) {p : ℤ} {pf : ProcFile} (hp : st.pf = some p)
    (hpf : st.procMap.find? p = some pf) {r : Record} (hr : r.flag = some .fd) :
    (st.afterFd T p r.value.text).Counted T (c.step T r) := by
  obtain ⟨⟨k,t⟩,hlast,rfl⟩ := Option.map_eq_some_iff.mp (h.pf.symm.trans hp)
  have hstep : c.step T r = { c with
      filed := c.filed ++ [(k,c.number T r.text)]
      txts := if r.text = "txt".toList then c.txts + 1 else c.txts } := by
    simp only [Census.step, hr, hlast]
  have hnum : st.numberOf r.value.text = c.number T r.text := numberOf_counted h r.value.text
  rw [hstep]
  refine ⟨h.pf,h.pid,by simp [afterFd, hnum],?_,?_,?_⟩
  · change (if r.text = "txt".toList then st.txt_fd_counter + 1 else st.txt_fd_counter) =
      T + 1 + UInt64.ofNat (if r.text = "txt".toList then c.txts + 1 else c.txts)
    rw [h.counter]
    split_ifs
    · exact Ledger.counter_succ T c.txts
    · rfl
  · intro e he
    obtain ⟨f,hf,hfe⟩ := h.flagged e he
    exact ⟨f,List.mem_append_left _ hf,hfe⟩
  · refine ⟨fun j => ?_,fun e => ?_⟩
    · refine Eq.trans ?_ (h.store.procs j)
      rw [find?_afterFd hpf]
      by_cases hj : j = k
      · rw [if_pos hj, hj, hpf]
        rfl
      · rw [if_neg hj]
    · rw [fileAt_afterFd hpf, hnum, h.store.files, h.pid k hp]
      unfold Census.fileAt
      rw [List.find?_append]
      dsimp only
      cases hfind : c.filed.find? fun f => (f.1,fileKey f.2) = e with
      | some f =>
        have hfe : (f.1,fileKey f.2) = e := by simpa using List.find?_some hfind
        simp
      | none =>
        -- no flags were given to an entry that was not filed
        have hcount : c.flagged.count e = 0 := by
          rw [List.count_eq_zero]
          intro he
          obtain ⟨f,hf,hfe⟩ := h.flagged e he
          have := List.find?_eq_none.mp hfind f hf
          simp [hfe] at this
        by_cases he : e = (k,fileKey (c.number T r.text))
        · subst he
          rw [if_pos rfl, hcount, List.find?_cons_of_pos (by simp)]
          rfl
        · have hne : (k,fileKey (c.number T r.text)) ≠ e := fun h => he h.symm
          rw [if_neg he]
          simp [hne]

theorem afterFlags_counted (h : st.Counted T c) {p j : ℤ} (hu : st.ulf = some (p,j))
    {r : Record} (hr : r.flag = some .flags) (charbuff : Option Text) :
    (st.afterFlags p j charbuff).Counted T (c.step T r) := by
  obtain ⟨f,hlast,hf⟩ := Option.map_eq_some_iff.mp (h.ulf.symm.trans hu)
  have hstep : c.step T r = { c with flagged := c.flagged ++ [(p,j)] } := by
    simp only [Census.step, hr, hlast, hf]
  rw [hstep]
  refine ⟨h.pf,h.pid,h.ulf,h.counter,?_,?_,?_⟩
  · intro e he
    rcases List.mem_append.mp he with he | he
    · exact h.flagged e he
    · exact ⟨f,List.mem_of_getLast? hlast,by rw [List.mem_singleton.mp he, hf]⟩
  · intro k
    refine Eq.trans ?_ (h.store.procs k)
    rw [find?_afterFlags]
    by_cases hk : k = p
    · rw [if_pos hk, hk, Option.map_map]
      rfl
    · rw [if_neg hk]
  · intro e
    rw [fileAt_afterFlags, h.store.files]
    unfold Census.fileAt
    dsimp only
    by_cases he : e = (p,j)
    · rw [if_pos he, he, Option.map_map, List.count_append, List.count_singleton_self,
        List.replicate_add]
      rfl
    · have hne : (p,j) ≠ e := fun h => he h.symm
      rw [if_neg he, List.count_append, List.count_singleton]
      simp [hne]

theorem afterPid_counted (h : st.Counted T c) {r : Record} (hr : r.flag = some .pid) :
    (st.afterPid r.value.text).Counted T (c.step T r) := by
  have hstep : c.step T r = { c with named := c.named ++ [(atoi r.text,r.text)] } := by
    simp only [Census.step, hr]
  rw [hstep]
  refine ⟨by simp [afterPid, Record.text],?_,h.ulf,h.counter,h.flagged,?_,?_⟩
  · intro k hk
    cases hk
    rfl
  · intro k
    have hk := h.store.procs k
    have htexts : Census.texts { c with named := c.named ++ [(atoi r.text,r.text)] } k =
        c.texts k ++ if atoi r.text = k then [r.text] else [] := by
      unfold Census.texts
      by_cases he : atoi r.text = k <;> simp [he]
    unfold Census.procAt at hk ⊢
    rw [find?_afterPid, htexts]
    change Option.map _ (if k = atoi r.text then some
      (((st.procMap.find? (atoi r.text)).getD ProcFile.new).addAttribute .pid r.text) else _) = _
    by_cases he : k = atoi r.text
    · subst he
      have hpid : asUInt32 (atoi (c_str r.text)) = asUInt32 (atoi r.text) := by
        rw [Record.text, c_str_c_str]
      rw [if_pos rfl, if_pos rfl, Option.map_some, if_neg (by simp)]
      cases hp : st.procMap.find? (atoi r.text) with
      | none =>
        rw [hp, Option.map_none] at hk
        have hnil : c.texts (atoi r.text) = [] := by
          by_contra hne
          rw [if_neg hne] at hk
          cases hk
        simp [ProcFile.addAttribute, ProcFile.new, hnil, hpid]
      | some p =>
        rw [hp, Option.map_some] at hk
        have hne : c.texts (atoi r.text) ≠ [] := fun hnil => by
          rw [if_pos hnil] at hk
          cases hk
        rw [if_neg hne, Option.some.injEq, Prod.mk.injEq] at hk
        simp [ProcFile.addAttribute, hk.2, hpid]
    · have hne : atoi r.text ≠ k := fun h => he h.symm
      rw [if_neg he, hk, if_neg hne, List.append_nil]
  · intro e
    rw [fileAt_afterPid, h.store.files]
    rfl

theorem readRecord_counted (hc : st.Consistent) (h : st.Counted T c) {r : Record}
    (hr : readRecord T st r = .ok st') : st'.Counted T (c.step T r) := by
  rw [readRecord, iterate_record hc.strbuff] at hr
  rcases outcome_cases hr with ⟨hf,p,w,hp,hw,rfl⟩ | ⟨hf,p,j,hu,rfl⟩ | ⟨hf,w,hw,rfl⟩ | ⟨hf,rfl⟩
  · cases hw
    obtain ⟨pf,hpf⟩ := (hc.pf p hp).2
    exact afterFd_counted h hp hpf hf
  · exact afterFlags_counted h hu hf _
  · cases hw
    exact afterPid_counted h hf
  · have hstep : c.step T r = c := by simp only [Census.step, Record.flag, hf]
    rw [hstep]
    exact ⟨h.pf,h.pid,h.ulf,h.counter,h.flagged,h.store⟩

theorem run_counted {rs : List Record} (h : run (readRecord T) (init T ∅) rs = .ok st) :
    st.Counted T (census T rs) := by
  refine (run_history (I := fun pre (st : LsofLoop) => st.Consistent ∧ st.Counted T (census T pre))
    ?_ ⟨init_consistent T,init_counted T⟩ h).2
  rintro pre r s t ⟨hc,hl⟩ hr
  rw [census_snoc]
  exact ⟨iterate_consistent hc hr,readRecord_counted hc hl hr⟩

end LsofLoop

/-- Whenever the pointers of a stream are set, `bufferedRead` builds the store its census
describes: every process with the texts that named it, every file with the path of the first
record that gave it and empty flags for each `G` record, and nothing else. -/
theorem bufferedRead_describes {T : UInt64} {rs : List Record} (h : PointersSet T rs) :
    ∃ m, bufferedRead T ∅ (lines rs) = .ok m ∧ (census T rs).Describes T m := by
  obtain ⟨st,hst⟩ := (run_ok_iff_pointersSet T rs).mpr h
  refine ⟨st.procMap,?_,(LsofLoop.run_counted hst).store⟩
  rw [bufferedRead, bufferedReadState_lines, hst]
  rfl

/-- A process whose descriptor is given twice with flags in between. -/
theorem bufferedRead_describes_twice : ∃ m,
    bufferedRead 1025 ∅ (lines (setRecords [⟨⟨"7".toList,by decide,by decide⟩,
      [⟨⟨"3".toList,by decide,by decide⟩,some ⟨"R".toList,by decide,by decide⟩⟩,
        ⟨⟨"3".toList,by decide,by decide⟩,none⟩]⟩])) = .ok m ∧
    (census 1025 (setRecords [⟨⟨"7".toList,by decide,by decide⟩,
      [⟨⟨"3".toList,by decide,by decide⟩,some ⟨"R".toList,by decide,by decide⟩⟩,
        ⟨⟨"3".toList,by decide,by decide⟩,none⟩]⟩])).Describes 1025 m :=
  bufferedRead_describes (pointersSet_of_reads (Ledger.foldl_sets (Ledger.init_counter 1025) _).1)

/-- The identifiers the switch has a case for. -/
def Record.known (r : Record) : Bool := r.flag ≠ none

/-- The buffer's old contents do not matter to a complete record. -/
lemma readRecord_buffer {T : UInt64} {st : LsofLoop} (hs : st.strbuff = []) (b : Option Text)
    (r : Record) : readRecord T { st with charbuff := b } r = readRecord T st r := by
  have hs' : ({ st with charbuff := b } : LsofLoop).strbuff = [] := hs
  rw [readRecord, readRecord, LsofLoop.iterate_record hs', LsofLoop.iterate_record hs]
  unfold LsofLoop.outcome
  split <;> rfl

theorem run_known {T : UInt64} {st : LsofLoop} (hs : st.strbuff = []) (b : Option Text)
    (rs : List Record) : LsofLoop.procMap <$> run (readRecord T) { st with charbuff := b } rs =
      LsofLoop.procMap <$> run (readRecord T) st (rs.filter Record.known) := by
  induction rs generalizing st b with
  | nil => rfl
  | cons r rs ih =>
    rw [run_cons, readRecord_buffer hs, List.filter_cons]
    cases hk : r.known with
    | false =>
      have hnone : r.flag = none := by simpa [Record.known] using hk
      have hread : readRecord T st r = .ok { st with charbuff := some r.value.text } := by
        rw [readRecord, LsofLoop.iterate_record hs, show LsofFlag.ofChar r.id = none from hnone]
        obtain ⟨procMap,ulf,pf,counter,pid,fid,charbuff,strbuff⟩ := st
        cases hs
        rfl
      rw [hread, ok_bind, if_neg (by decide)]
      exact ih hs _
    | true =>
      rw [if_pos rfl, run_cons]
      cases hread : readRecord T st r with
      | error e => rfl
      | ok u => exact ih (LsofLoop.strbuff_iterate hread) u.charbuff

/-- Fields the reader was not asked for, or does not know, change nothing wherever they stand in
the stream: neither the store nor whether it is built. -/
theorem bufferedRead_known (T : UInt64) (m : ProcMap) (rs : List Record) :
    bufferedRead T m (lines rs) = bufferedRead T m (lines (rs.filter Record.known)) := by
  have hs : (LsofLoop.init T m).strbuff = [] := rfl
  rw [bufferedRead, bufferedRead, bufferedReadState_lines, bufferedReadState_lines]
  exact run_known hs none rs

end Cphf
