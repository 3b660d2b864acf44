import Cphf.Listing

/-! The whole way from what processes hold open to what is printed: the report follows the
listing, so it tells each process and each of its files once, in an order that does not depend on
the order in which `lsof` found them. -/
namespace Cphf
open CLib

/-- What is reported about the file under a path. -/
def fileReport (sys : System) (options path : Text) : List CphfAttribute :=
  match sys.stat path with
  | none => []
  | some stat =>
    match gather (fun c => FileStatReader.processOpiton sys c path stat) ∅ options with
    | .error _ => []
    | .ok funcs => arranged .filename [] funcs.entries

/-- The part of a report about one process: its own entry, which names it, and those of the files
listed for it. -/
def Block (sys : System) (o : MainOptions) (block : List Entry) (P : LsofProc) : Prop :=
  ∃ attributes : List CphfAttribute,
    attributes.filter (·.1 = .pid) = [(.pid,decimal P.pid)] ∧
    block = (if o.proc_ops = NO then [] else [⟨true,attributes⟩]) ++
      if o.file_ops = NO then [] else P.listing.map fun path => ⟨false,fileReport sys o.file_ops path⟩

section
variable {sys : System} {T : UInt64} {options : Text}

theorem readFileStatAttributes_report {fid pid : UInt32} {u u' : UnlinkedFile}
    (hu : u.attributes = []) (h : readFileStatAttributes sys T options fid pid u = .ok u') :
    u'.attributes = fileReport sys options (formPath T pid fid.toUInt64) := by
  unfold readFileStatAttributes at h
  unfold fileReport
  dsimp only at h
  cases hs : sys.stat (formPath T pid fid.toUInt64) with
  | none =>
    rw [hs] at h
    cases h
    exact hu
  | some stat =>
    rw [hs] at h
    obtain ⟨funcs,hg,he⟩ := bind_eq_ok.mp h
    cases he
    rw [FileStatReader.run_collect] at hg
    dsimp only
    rw [hg, UnlinkedFile.addAttributes_attributes, hu]

/-- A process stored as listed, its own attributes read. -/
structure ProcShows (T : UInt64) (e : ℤ × ProcFile) (P : LsofProc) : Prop where
  attributes : e.2.attributes.filter (·.1 = .pid) = [(.pid,decimal P.pid)]
  files : e.2.ulFiles.entries.Forall₂
    (fun f path => examined T e.2.pid f.1 = path ∧ f.2.attributes = []) P.listing

/-- A process stored as listed, its files read. -/
structure FilesShow (sys : System) (options : Text) (e : ℤ × ProcFile) (P : LsofProc) : Prop where
  attributes : e.2.attributes.filter (·.1 = .pid) = [(.pid,decimal P.pid)]
  files : e.2.ulFiles.entries.map (fun f => f.2.attributes) =
    P.listing.map (fileReport sys options)

theorem Listed.procShows {e : ℤ × ProcFile} {P : LsofProc} (h : Listed T e P) : ProcShows T e P :=
  ⟨by rw [h.attributes]; rfl,h.files⟩

/-- Attributes that are no numbers leave those that are in place. -/
theorem ProcFile.addAttributes_numbers (p : ProcFile) {l : List CphfAttribute}
    (h : ∀ a ∈ l, a.1 ≠ .pid) :
    (p.addAttributes l).attributes.filter (·.1 = .pid) = p.attributes.filter (·.1 = .pid) := by
  have hnone : ∀ l' : List CphfAttribute, (∀ a ∈ l', a ∈ l) → l'.filter (·.1 = .pid) = [] := by
    intro l' hl'
    rw [List.filter_eq_nil_iff]
    intro a ha
    simpa using h a (hl' a ha)
  rw [addAttributes_attributes, arranged, List.filter_append, List.filter_append,
    hnone _ fun a ha => List.mem_of_mem_filter (List.mem_reverse.mp ha),
    hnone _ fun a ha => List.mem_of_mem_filter ha, List.nil_append, List.append_nil]

theorem ProcReader.visit_shows {st st' : ProcLoop} {key : ℤ} {p q : ProcFile} {P : LsofProc}
    (h : ProcShows T (key,p) P) (hv : visit sys options st key p = .ok (st',q)) :
    ProcShows T (key,q) P := by
  rcases visit_eq_ok hv with ⟨_,rfl⟩ | ⟨info,funcs,_,hg,rfl⟩
  · exact h
  · have hne := gathered_ne_pid hg
    refine ⟨(p.addAttributes_numbers hne).trans h.attributes,?_⟩
    simpa only [ProcFile.addAttributes_pid hne, ProcFile.addAttributes_ulFiles] using h.files

theorem ProcReader.do_read_shows {fresh : ProcInfo} {m m' : ProcMap} {out : Text}
    {ps : List LsofProc} (hm : m.entries.Forall₂ (ProcShows T) ps)
    (h : do_read sys fresh options m = .ok (out,m')) : m'.entries.Forall₂ (ProcShows T) ps := by
  obtain ⟨⟨st,m₁⟩,ht,he⟩ := bind_eq_ok.mp h
  cases he
  apply forall₂_join (forall₂_traverse (OMap.traverse_ok.mp ht)) hm
  rintro ⟨k,p⟩ ⟨k',q⟩ P ⟨hk,s,t,hv⟩ hp
  cases hk
  exact visit_shows hp hv

/-- The files of a process are read in the order in which they are listed, and its own attributes
stay. -/
theorem ProcFile.addFileAttributes_shows {k : ℤ} {p q : ProcFile} {P : LsofProc}
    (h : ProcShows T (k,p) P)
    (hadd : p.addFileAttributes (readFileStatAttributes sys T options) = .ok q) :
    FilesShow sys options (k,q) P ∧ q.attributes = p.attributes := by
  obtain ⟨files,hf,rfl⟩ := addFileAttributes_ok.mp hadd
  refine ⟨⟨h.attributes,?_⟩,rfl⟩
  have hfiles : files.entries.Forall₂ (fun f path => f.2.attributes = fileReport sys options path)
      P.listing := by
    apply forall₂_join (forall₂_traverse (OMap.traverse_ok.mp hf)) h.files
    rintro ⟨j,u⟩ ⟨j',v⟩ path ⟨hj,_,_,hv⟩ ⟨hpath,hu⟩
    cases hj
    obtain ⟨v',hr,he⟩ := map_eq_ok.mp hv
    cases he
    rw [← hpath]
    exact readFileStatAttributes_report hu hr
  exact map_eq_of_forall₂ hfiles fun _ _ h => h

theorem FileStatReader.do_read_shows {m m' : ProcMap} {ps : List LsofProc}
    (hm : m.entries.Forall₂ (ProcShows T) ps) (h : do_read sys T options m = .ok m') :
    m'.entries.Forall₂ (FilesShow sys options) ps := by
  obtain ⟨⟨_,m₁⟩,ht,he⟩ := bind_eq_ok.mp h
  cases he
  apply forall₂_join (forall₂_traverse (OMap.traverse_ok.mp ht)) hm
  rintro ⟨k,p⟩ ⟨k',q⟩ P ⟨hk,_,_,hv⟩ hp
  cases hk
  obtain ⟨q',hadd,he⟩ := map_eq_ok.mp hv
  cases he
  exact (ProcFile.addFileAttributes_shows hp hadd).1

end

/-- What the queue tells of a process whose files have been read. -/
theorem entries_of_shows {sys : System} {o : MainOptions} {e : ℤ × ProcFile} {P : LsofProc}
    (h : o.file_ops ≠ NO → FilesShow sys o.file_ops e P) :
    ((if decide (o.proc_ops ≠ NO) then [CphfFile.proc e.2] else []) ++
        if decide (o.file_ops ≠ NO) then e.2.flatten else []).map CphfFile.entry =
      (if o.proc_ops = NO then [] else [⟨true,e.2.attributes⟩]) ++
        if o.file_ops = NO then []
        else P.listing.map fun path => ⟨false,fileReport sys o.file_ops path⟩ := by
  rw [List.map_append]
  congr 1
  · by_cases hp : o.proc_ops = NO <;> simp [hp, CphfFile.entry]
  · by_cases hf : o.file_ops = NO
    · simp [hf]
    · have hshow := (h hf).files
      simp only [hf, ne_eq, not_false_eq_true, decide_true, if_true, if_false]
      rw [ProcFile.flatten, List.map_map]
      have hmap := congrArg (List.map (Entry.mk false)) hshow
      rw [List.map_map, List.map_map] at hmap
      exact hmap

/-- On the output of `lsof` about processes it can list, whatever other fields stand between the
records, the report is one block for each process in the order of their numbers: its own entry,
with its number once, and one for each of its files in the order listed, telling what is found
under the path the record stands for. -/
theorem runReaders_blocks {env : Surroundings} {ps : List LsofProc}
    (hps : Listable env.ULF_TXT_FD ps) {rs : List Record}
    (hrs : rs.filter Record.known = setRecords (ps.map LsofProc.set))
    (hlsof : env.lsof = .output (lines rs)) {o : MainOptions} (hok : o.flagsOkay = true)
    (hno : ¬ (o.proc_ops = NO ∧ o.file_ops = NO)) {r : Built × List CphfFile}
    (h : o.runReaders env = .ok r) : ∃ blocks : List (List Entry),
      r.2.map CphfFile.entry = blocks.flatten ∧
        blocks.Forall₂ (Block env.sys o) (inOrder ps) := by
  obtain ⟨b₀,b₁,b₂,h₀,h₁,h₂,rfl⟩ := runReaders_stages hok hno h
  obtain ⟨m,hm,hshows⟩ := bufferedRead_listed hps hrs
  have hb₀ : b₀.procMap = m := by
    obtain ⟨r,hr,he⟩ := bind_eq_ok.mp h₀
    cases he
    rw [hlsof] at hr
    obtain ⟨m',hm',he⟩ := map_eq_ok.mp hr
    cases hm.symm.trans hm'
    cases he
    rfl
  have hprocs : b₁.procMap.entries.Forall₂ (ProcShows env.ULF_TXT_FD) (inOrder ps) := by
    have hstart : b₀.procMap.entries.Forall₂ (ProcShows env.ULF_TXT_FD) (inOrder ps) := by
      rw [hb₀]
      exact hshows.imp fun _ _ => Listed.procShows
    unfold Built.digUnless at h₁
    split_ifs at h₁
    · cases h₁
      exact hstart
    · obtain ⟨r,hr,he⟩ := bind_eq_ok.mp h₁
      cases he
      exact ProcReader.do_read_shows hstart hr
  have hfiles : b₂.procMap.entries.Forall₂ (fun e P =>
      e.2.attributes.filter (·.1 = .pid) = [(.pid,decimal P.pid)] ∧
        (o.file_ops ≠ NO → FilesShow env.sys o.file_ops e P)) (inOrder ps) := by
    unfold Built.digUnless at h₂
    split_ifs at h₂ with hf
    · cases h₂
      exact hprocs.imp fun _ _ hp => ⟨hp.attributes,fun hne => absurd hf hne⟩
    · obtain ⟨m,hm,he⟩ := bind_eq_ok.mp h₂
      cases he
      exact (FileStatReader.do_read_shows hprocs hm).imp fun _ _ hp => ⟨hp.attributes,fun _ => hp⟩
  refine ⟨b₂.procMap.entries.map fun e =>
    ((if decide (o.proc_ops ≠ NO) then [CphfFile.proc e.2] else []) ++
      if decide (o.file_ops ≠ NO) then e.2.flatten else []).map CphfFile.entry,?_,?_⟩
  · rw [flattenMap, List.map_flatMap, List.flatMap_def]
  · rw [List.forall₂_map_left_iff]
    exact hfiles.imp fun e _ hp => ⟨e.2.attributes,hp.1,entries_of_shows hp.2⟩

/-- A field that names the process group. -/
def groupRecord : Record := .of 'g' "7".toList (by decide)

/-- Two processes, listed out of order, with fields in between that were not asked for. -/
def twoProcs : List LsofProc := [⟨7,[.num 3,.txt]⟩,⟨5,[.num 4]⟩]

def twoProcsRecords : List Record :=
  (twoProcs.map LsofProc.set).flatMap fun s =>
    s.records.take 1 ++ groupRecord :: s.records.drop 1

lemma twoProcsRecords_known :
    twoProcsRecords.filter Record.known = setRecords (twoProcs.map LsofProc.set) := rfl

def twoProcsFound : Surroundings := ⟨some 1024,.output (lines twoProcsRecords),answering,default⟩

lemma twoProcs_listable : Listable twoProcsFound.ULF_TXT_FD twoProcs := by
  refine ⟨by decide,?_,?_,by decide +kernel⟩
  · intro P hP
    fin_cases hP <;> decide
  · intro P hP
    fin_cases hP <;> decide +kernel

theorem runReaders_blocks_two : ∃ (r : Built × List CphfFile) (blocks : List (List Entry)),
    MainOptions.init.runReaders twoProcsFound = .ok r ∧ r.2.length = 5 ∧
      r.2.map CphfFile.entry = blocks.flatten ∧
      blocks.Forall₂ (Block answering MainOptions.init) (inOrder twoProcs) := by
  have hrun : (fun r => r.2.length) <$> MainOptions.init.runReaders twoProcsFound = .ok 5 := by
    decide +kernel
  obtain ⟨r,hr,hlength⟩ := map_eq_ok.mp hrun
  obtain ⟨blocks,hflat,hall⟩ := runReaders_blocks twoProcs_listable twoProcsRecords_known rfl rfl
    (by decide) hr
  exact ⟨r,blocks,hr,hlength,hflat,hall⟩

/-- The same processes with the same files, in another order. -/
def Reordered (ps qs : List LsofProc) : Prop :=
  ∃ ps', ps.Perm ps' ∧ ps'.Forall₂ (fun P Q => P.pid = Q.pid ∧ P.fds.Perm Q.fds) qs

namespace LsofProc
variable {P Q : LsofProc}

theorem nums_perm (h : P.fds.Perm Q.fds) : P.nums.Perm Q.nums := h.filterMap _

theorem txts_eq (h : P.fds.Perm Q.fds) : P.txts = Q.txts :=
  (h.map Descriptor.fileSet).countP_eq _

theorem listing_eq (hpid : P.pid = Q.pid) (h : P.fds.Perm Q.fds) : P.listing = Q.listing := by
  have hsort : P.nums.mergeSort (· ≤ ·) = Q.nums.mergeSort (· ≤ ·) := by
    apply List.Perm.eq_of_sortedLE List.sortedLE_mergeSort List.sortedLE_mergeSort
    exact (List.mergeSort_perm _ _).trans ((nums_perm h).trans (List.mergeSort_perm _ _).symm)
  rw [listing, listing, hsort, txts_eq h, hpid]

end LsofProc

section
variable {T : UInt64} {ps qs : List LsofProc}

theorem Reordered.pids (h : Reordered ps qs) :
    (ps.map LsofProc.pid).Perm (qs.map LsofProc.pid) := by
  obtain ⟨ps',hperm,hall⟩ := h
  rw [← map_eq_of_forall₂ (f := LsofProc.pid) hall fun P Q hPQ => hPQ.1]
  exact hperm.map LsofProc.pid

/-- Each process has its counterpart. -/
theorem Reordered.counterpart (h : Reordered ps qs) {P : LsofProc} (hP : P ∈ ps) :
    ∃ Q ∈ qs, P.pid = Q.pid ∧ P.fds.Perm Q.fds := by
  obtain ⟨ps',hperm,hall⟩ := h
  exact exists_of_forall₂ hall (hperm.mem_iff.mp hP)

theorem Reordered.counterpart' (h : Reordered ps qs) {Q : LsofProc} (hQ : Q ∈ qs) :
    ∃ P ∈ ps, P.pid = Q.pid ∧ P.fds.Perm Q.fds := by
  obtain ⟨ps',hperm,hall⟩ := h
  obtain ⟨P,hP,hPQ⟩ := exists_of_forall₂ (R := flip _) (List.Forall₂.flip hall) hQ
  exact ⟨P,hperm.mem_iff.mpr hP,hPQ⟩

theorem Reordered.txtRecords (h : Reordered ps qs) : txtRecords ps = txtRecords qs := by
  obtain ⟨ps',hperm,hall⟩ := h
  have hsum : ∀ l : List LsofProc, Cphf.txtRecords l = (l.map LsofProc.txts).sum := by
    intro l
    unfold Cphf.txtRecords LsofProc.txts txtCount
    rw [List.flatMap_map, List.countP_flatMap]
    rfl
  rw [hsum, hsum, (hperm.map LsofProc.txts).sum_eq,
    map_eq_of_forall₂ (f := LsofProc.txts) hall fun P Q hPQ => LsofProc.txts_eq hPQ.2]

/-- What can be listed in one order can be in every other. -/
theorem Reordered.listable (h : Reordered ps qs) (hps : Listable T ps) : Listable T qs := by
  refine ⟨h.pids.nodup_iff.mp hps.pids,fun Q hQ => ?_,fun Q hQ n hn => ?_,?_⟩
  · obtain ⟨P,hP,_,hfds⟩ := h.counterpart' hQ
    exact (LsofProc.nums_perm hfds).nodup_iff.mp (hps.fds P hP)
  · obtain ⟨P,hP,_,hfds⟩ := h.counterpart' hQ
    exact hps.below P hP n ((LsofProc.nums_perm hfds).mem_iff.mpr hn)
  · rw [← h.txtRecords]
    exact hps.room

/-- The listing is the same. -/
theorem Reordered.inOrder (h : Reordered ps qs) (hps : Listable T ps) :
    (inOrder ps).Forall₂ (fun P Q => P.pid = Q.pid ∧ P.listing = Q.listing) (inOrder qs) := by
  have hqs := h.listable hps
  have hkeys : (Cphf.inOrder ps).map (fun P => (P.pid.val : ℤ)) =
      (Cphf.inOrder qs).map fun Q => (Q.pid.val : ℤ) := by
    apply (inOrder_ascend hps.pids).eq_of_mem_iff (inOrder_ascend hqs.pids)
    intro k
    have hmem : ∀ l : List LsofProc, k ∈ (Cphf.inOrder l).map (fun P => (P.pid.val : ℤ)) ↔
        k ∈ (l.map LsofProc.pid).map fun n => (n.val : ℤ) := by
      intro l
      simp [Cphf.inOrder]
    rw [hmem, hmem]
    exact (h.pids.map _).mem_iff
  apply forall₂_of_map_eq hkeys
  intro P hP Q hQ hPQ
  have hpid : P.pid = Q.pid := Fin.ext (Int.ofNat_inj.mp hPQ)
  obtain ⟨Q',hQ',hpid',hfds⟩ := h.counterpart (List.mem_mergeSort.mp hP)
  have hQQ : Q' = Q := List.inj_on_of_nodup_map hqs.pids hQ' (List.mem_mergeSort.mp hQ)
    (hpid'.symm.trans hpid)
  exact ⟨hpid,LsofProc.listing_eq hpid (hQQ ▸ hfds)⟩

/-- The stores of two such streams look alike. -/
theorem Reordered.storeAlike (h : Reordered ps qs) (hps : Listable T ps) {m m' : ProcMap}
    (hm : m.entries.Forall₂ (Listed T) (Cphf.inOrder ps))
    (hm' : m'.entries.Forall₂ (Listed T) (Cphf.inOrder qs)) : StoreAlike T m m' := by
  have hmid : m.entries.Forall₂ (fun e Q => ∃ P : LsofProc, Listed T e P ∧ P.pid = Q.pid ∧
      P.listing = Q.listing) (Cphf.inOrder qs) :=
    forall₂_join (List.Forall₂.flip (R := flip (Listed T)) hm) (h.inOrder hps)
      fun P e Q he hPQ => ⟨P,he,hPQ⟩
  apply forall₂_join hmid.flip hm'.flip
  rintro Q e e' ⟨P,hP,hpid,hlisting⟩ hQ
  have hfiles := hP.files
  rw [hlisting] at hfiles
  refine ⟨?_,?_,?_,?_⟩
  · rw [hP.key, hQ.key, hpid]
  · rw [hP.pid, hQ.pid, hpid]
  · rw [hP.attributes, hQ.attributes, hpid]
  · apply forall₂_join hfiles.flip hQ.files.flip
    rintro path f f' ⟨hpath,hf⟩ ⟨hpath',hf'⟩
    refine ⟨?_,hf.trans hf'.symm⟩
    rw [hpath, hP.pid, hpid, ← hQ.pid, hpath']

end

end Cphf
