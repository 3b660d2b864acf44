import Cphf.Queue
import Cphf.Readers.Filtering

/-! What an entry of the report has and has not. An attribute stands in it once for each reader
that was asked for it, if the entry's process or file could be looked up at all, and nothing else
does besides the numbers and the flags that `lsof` gave. -/
namespace Cphf
open CLib

/-- How often an attribute occurs. -/
def tally (l : List CphfAttribute) (k : CphfId) : ℕ := (l.map Prod.fst).count k

theorem tally_arranged (front : CphfId) (old new : List CphfAttribute) (k : CphfId) :
    tally (arranged front old new) k = tally old k + tally new k := by
  have hperm : (arranged front old new).Perm (old ++ new) := by
    have hnew : (new.filter (·.1 = front) ++ new.filter (·.1 ≠ front)).Perm new := by
      simpa using List.filter_append_perm (fun a : CphfAttribute => decide (a.1 = front)) new
    calc (new.filter (·.1 = front)).reverse ++ old ++ new.filter (·.1 ≠ front)
        |>.Perm (new.filter (·.1 = front) ++ old ++ new.filter (·.1 ≠ front)) :=
          ((List.reverse_perm _).append_right _).append_right _
      _ |>.Perm (old ++ new.filter (·.1 = front) ++ new.filter (·.1 ≠ front)) :=
          List.perm_append_comm.append_right _
      _ = old ++ (new.filter (·.1 = front) ++ new.filter (·.1 ≠ front)) := List.append_assoc _ _ _
      _ |>.Perm (old ++ new) := hnew.append_left old
  unfold tally
  rw [(hperm.map Prod.fst).count_eq, List.map_append, List.count_append]

section
variable {sys : System} {options : Text} {funcs : ReaderFuncs}

/-- What is gathered has each identifier that was chosen once. -/
theorem ProcReader.tally_gathered {i : ProcInfo}
    (h : gather (entry sys i) ∅ options = .ok funcs) (k : CphfId) :
    tally funcs.entries k = if ProcOption.chosen options k then 1 else 0 := by
  unfold tally
  apply count_gather (entry_functional sys i) h k
  rw [ProcOption.chosen_iff]
  constructor
  · rintro ⟨o,rfl,ho⟩
    obtain ⟨a,ha⟩ := gather_ok_iff.mp ⟨_,h⟩ _ ho
    obtain ⟨o',hc,hk,_⟩ := (entry_eq_ok sys i).mp ha
    cases ProcOption.char_injective hc
    exact ⟨_,ho,a.2,by rw [ha, ← hk]⟩
  · rintro ⟨c,hc,v,hv⟩
    obtain ⟨o,rfl,hk,_⟩ := (entry_eq_ok sys i).mp hv
    exact ⟨o,hk.symm,hc⟩

theorem FileStatReader.tally_gathered {path : Text} {stat : Stat}
    (h : gather (fun c => processOpiton sys c path stat) ∅ options = .ok funcs) (k : CphfId) :
    tally funcs.entries k = if FileOption.chosen options k then 1 else 0 := by
  unfold tally
  apply count_gather (processOpiton_functional sys path stat) h k
  rw [FileOption.chosen_iff]
  constructor
  · rintro ⟨o,hk,ho⟩
    obtain ⟨a,ha⟩ := gather_ok_iff.mp ⟨_,h⟩ _ ho
    obtain ⟨o',hc,hk',_⟩ := (processOpiton_eq_ok sys path stat).mp ha
    cases FileOption.char_injective hc
    exact ⟨_,ho,a.2,by rw [ha, Option.some.inj (hk.symm.trans hk')]⟩
  · rintro ⟨c,hc,v,hv⟩
    obtain ⟨o,rfl,hk,_⟩ := (processOpiton_eq_ok sys path stat).mp hv
    exact ⟨o,hk,hc⟩

end

/-- A process comes out of another with so many more of each attribute, itself and its files. -/
structure ProcFile.Gains (own : CphfId → ℕ) (file : ℤ → CphfId → ℕ) (p q : ProcFile) : Prop where
  own : ∀ k, tally q.attributes k = tally p.attributes k + own k
  files : ∀ j v, q.ulFiles.find? j = some v → ∃ u, p.ulFiles.find? j = some u ∧
    ∀ k, tally v.attributes k = tally u.attributes k + file j k

namespace ProcFile
variable {own own' : CphfId → ℕ} {file file' : ℤ → CphfId → ℕ} {p q r : ProcFile}

theorem Gains.refl (p : ProcFile) : p.Gains 0 0 p := ⟨fun _ => rfl,fun _ v hv => ⟨v,hv,fun _ => rfl⟩⟩

theorem Gains.trans (h : p.Gains own file q) (h' : q.Gains own' file' r) :
    p.Gains (own + own') (file + file') r := by
  refine ⟨fun k => ?_,fun j w hw => ?_⟩
  · rw [h'.own, h.own, Nat.add_assoc]
    rfl
  · obtain ⟨v,hv,hvw⟩ := h'.files j w hw
    obtain ⟨u,hu,huv⟩ := h.files j v hv
    refine ⟨u,hu,fun k => ?_⟩
    rw [hvw, huv, Nat.add_assoc]
    rfl

end ProcFile

/-- How many of the readers were asked for an attribute of a process, if its program can be
looked up. -/
def askedOfProcess (sys : System) (diggers : List DataDigger) (key : ℤ) (k : CphfId) : ℕ :=
  if sys.stat (exePath sys (asUInt32 key)) = none then 0
  else diggers.countP fun d => d.1 = .proc && ProcOption.chosen d.2 k

/-- How many of the readers were asked for an attribute of a file, if its path can be looked up. -/
def askedOfFile (sys : System) (T : UInt64) (diggers : List DataDigger) (key j : ℤ) (k : CphfId) :
    ℕ :=
  if sys.stat (formPath T (asUInt32 key) (asUInt32 j).toUInt64) = none then 0
  else diggers.countP fun d => d.1 = .filestat && FileOption.chosen d.2 k

section
variable {sys : System} {T : UInt64}

theorem askedOfProcess_append (l l' : List DataDigger) (key : ℤ) :
    askedOfProcess sys (l ++ l') key = askedOfProcess sys l key + askedOfProcess sys l' key := by
  funext k
  simp only [askedOfProcess, Pi.add_apply]
  split_ifs
  · rfl
  · exact List.countP_append

theorem askedOfFile_append (l l' : List DataDigger) (key : ℤ) :
    askedOfFile sys T (l ++ l') key = askedOfFile sys T l key + askedOfFile sys T l' key := by
  funext j k
  simp only [askedOfFile, Pi.add_apply]
  split_ifs
  · rfl
  · exact List.countP_append

end

/-- Between two stores, every process has gained what the readers were asked for. -/
def Gained (env : Surroundings) (diggers : List DataDigger) (m m' : ProcMap) : Prop :=
  ∀ key q, m'.find? key = some q → ∃ p, m.find? key = some p ∧
    p.Gains (askedOfProcess env.sys diggers key) (askedOfFile env.sys env.ULF_TXT_FD diggers key) q

theorem Gained.refl (env : Surroundings) (m : ProcMap) : Gained env [] m m := by
  intro key p hp
  refine ⟨p,hp,?_⟩
  have hown : askedOfProcess env.sys [] key = 0 := by
    funext k
    simp [askedOfProcess]
  have hfile : askedOfFile env.sys env.ULF_TXT_FD [] key = 0 := by
    funext j k
    simp [askedOfFile]
  rw [hown, hfile]
  exact .refl p

theorem Gained.trans {env : Surroundings} {l l' : List DataDigger} {m m' m'' : ProcMap}
    (h : Gained env l m m') (h' : Gained env l' m' m'') : Gained env (l ++ l') m m'' := by
  intro key r hr
  obtain ⟨q,hq,hqr⟩ := h' key r hr
  obtain ⟨p,hp,hpq⟩ := h key q hq
  refine ⟨p,hp,?_⟩
  rw [askedOfProcess_append, askedOfFile_append]
  exact hpq.trans hqr

section
variable {env : Surroundings} {options : Text} {m m' : ProcMap}

theorem ProcReader.do_read_gained {out : Text}
    (h : do_read env.sys env.fresh options m = .ok (out,m')) :
    Gained env [(.proc,options)] m m' := by
  obtain ⟨⟨st,m₁⟩,ht,he⟩ := bind_eq_ok.mp h
  cases he
  refine (OMap.traverse_invariant (I := fun _ => True) (fun s t key p q hp _ hv => ⟨trivial,?_⟩)
    trivial ht).2
  refine ⟨p,hp,fun k => ?_,fun j v hv' => ⟨v,?_,fun k => ?_⟩⟩
  · rcases visit_eq_ok hv with ⟨hs,rfl⟩ | ⟨info,funcs,hs,hg,rfl⟩
    · simp [askedOfProcess, hs]
    · rw [ProcFile.addAttributes_attributes, tally_arranged, tally_gathered hg]
      simp [askedOfProcess, hs, List.countP_cons]
  · rcases visit_eq_ok hv with ⟨_,rfl⟩ | ⟨info,funcs,_,_,rfl⟩
    · exact hv'
    · rwa [ProcFile.addAttributes_ulFiles] at hv'
  · simp [askedOfFile]

theorem readFileStatAttributes_tally {sys : System} {T : UInt64} {fid pid : UInt32}
    {u v : UnlinkedFile} (h : readFileStatAttributes sys T options fid pid u = .ok v)
    (k : CphfId) : tally v.attributes k = tally u.attributes k +
      if sys.stat (formPath T pid fid.toUInt64) = none then 0
      else if FileOption.chosen options k then 1 else 0 := by
  unfold readFileStatAttributes at h
  dsimp only at h
  cases hs : sys.stat (formPath T pid fid.toUInt64) with
  | none =>
    rw [hs] at h
    cases h
    rw [if_pos rfl, Nat.add_zero]
  | some stat =>
    rw [hs] at h
    obtain ⟨funcs,hg,he⟩ := bind_eq_ok.mp h
    cases he
    rw [FileStatReader.run_collect] at hg
    rw [UnlinkedFile.addAttributes_attributes, tally_arranged, FileStatReader.tally_gathered hg]
    rfl

theorem FileStatReader.do_read_gained (hm : m.Filed)
    (h : do_read env.sys env.ULF_TXT_FD options m = .ok m') :
    Gained env [(.filestat,options)] m m' := by
  obtain ⟨⟨_,m₁⟩,ht,he⟩ := bind_eq_ok.mp h
  cases he
  refine (OMap.traverse_invariant (I := fun _ => True) (fun s t key p q hp _ hv => ⟨trivial,?_⟩)
    trivial ht).2
  obtain ⟨q',hadd,he⟩ := map_eq_ok.mp hv
  cases he
  obtain ⟨files,hf,rfl⟩ := ProcFile.addFileAttributes_ok.mp hadd
  refine ⟨p,hp,fun k => by simp [askedOfProcess],?_⟩
  refine (OMap.traverse_invariant (I := fun _ => True) (fun _ _ j u v hu _ hr => ⟨trivial,?_⟩)
    trivial hf).2
  obtain ⟨v',hread,he⟩ := map_eq_ok.mp hr
  cases he
  refine ⟨u,hu,fun k => ?_⟩
  have hpid : (p.passedOn j).2 = asUInt32 key := (hm key p hp).atKey.pid
  rw [readFileStatAttributes_tally hread, hpid, ProcFile.passedOn]
  by_cases hs : env.sys.stat (formPath env.ULF_TXT_FD (asUInt32 key) (asUInt32 j).toUInt64) = none
  · simp [askedOfFile, hs]
  · simp [askedOfFile, hs, List.countP_cons]

end

theorem Built.dig_gained {env : Surroundings} {ddig : DataDigger} {b b' : Built}
    (hd : ddig.1 ≠ .lsof) (hb : b.procMap.Filed) (h : b.dig env ddig = .ok b') :
    Gained env [ddig] b.procMap b'.procMap := by
  obtain ⟨reader,options⟩ := ddig
  cases reader with
  | lsof => exact absurd rfl hd
  | proc =>
    obtain ⟨r,hr,he⟩ := bind_eq_ok.mp h
    cases he
    exact ProcReader.do_read_gained hr
  | filestat =>
    obtain ⟨m,hm,he⟩ := bind_eq_ok.mp h
    cases he
    exact FileStatReader.do_read_gained hb hm

/-- Readers that follow `lsof` add to each entry what they are asked for, one by one. -/
theorem run_dig_gained {env : Surroundings} {diggers : List DataDigger}
    (hd : ∀ d ∈ diggers, d.1 ≠ .lsof) {b b' : Built} (hb : b.procMap.Filed)
    (h : run (Built.dig env) b diggers = .ok b') :
    Gained env diggers b.procMap b'.procMap := by
  induction diggers generalizing b with
  | nil =>
    cases h
    exact .refl env _
  | cons d l ih =>
    rw [run_cons] at h
    obtain ⟨b₁,h₁,h⟩ := bind_eq_ok.mp h
    obtain ⟨hd₁,hl⟩ := List.forall_mem_cons.mp hd
    exact (Built.dig_gained hd₁ hb h₁).trans (ih hl (Built.dig_filed hb h₁) h)

/-- A process as `lsof` alone leaves it: it has nothing but numbers, its files nothing but flags. -/
structure ProcFile.Bare (p : ProcFile) : Prop where
  own : ∀ a ∈ p.attributes, a.1 = .pid
  files : p.ulFiles.Each fun _ u => ∀ a ∈ u.attributes, a.1 = .flags

def ProcMap.Bare (m : ProcMap) : Prop := OMap.Each (fun _ p => p.Bare) m

theorem LsofLoop.iterate_bare {T : UInt64} {st st' : LsofLoop} {t : Token} (hs : st.strbuff = [])
    (h : ProcMap.Bare st.procMap) (hr : st.iterate T t = .ok st') :
    st'.strbuff = [] ∧ ProcMap.Bare st'.procMap := by
  rcases outcome_cases (outcome_of_iterate hs hr) with
    ⟨_,p,w,_,_,rfl⟩ | ⟨_,p,j,_,rfl⟩ | ⟨_,w,_,rfl⟩ | ⟨_,rfl⟩
  · refine ⟨rfl,OMap.Each.modify h fun q hq => ⟨hq.own,hq.files.insertNew fun _ a ha => ?_⟩⟩
    cases ha
  · refine ⟨rfl,OMap.Each.modify h fun q hq => ⟨hq.own,hq.files.modify fun u hu a ha => ?_⟩⟩
    rcases List.mem_append.mp ha with ha | ha
    · exact hu a ha
    · rw [List.mem_singleton.mp ha]
  · refine ⟨rfl,OMap.Each.modify (OMap.Each.insertNew h fun _ => ?_) fun q hq => ?_⟩
    · exact ⟨fun a ha => (by cases ha),OMap.each_empty⟩
    · refine ⟨fun a ha => ?_,by rw [ProcFile.addAttribute_ulFiles]; exact hq.files⟩
      rcases List.mem_append.mp ha with ha | ha
      · exact hq.own a ha
      · rw [List.mem_singleton.mp ha]
  · exact ⟨rfl,h⟩

theorem getFilesInfo_bare {T : UInt64} {answer : LsofAnswer} {m m' : ProcMap} {out : Text}
    (h : m.Bare) (hr : getFilesInfo T answer m = .ok (out,m')) : m'.Bare := by
  cases answer with
  | noPipe | noFork =>
    cases hr
    exact h
  | output bytes =>
    obtain ⟨m₁,hm,he⟩ := map_eq_ok.mp hr
    cases he
    obtain ⟨st,hst,rfl⟩ := map_eq_ok.mp hm
    rw [bufferedReadState_eq_run] at hst
    exact (run_invariant (I := fun st : LsofLoop => st.strbuff = [] ∧ ProcMap.Bare st.procMap)
      (fun _ _ _ hI => LsofLoop.iterate_bare hI.1 hI.2) ⟨rfl,h⟩ hst).2

theorem tally_eq_zero {l : List CphfAttribute} {i k : CphfId} (h : ∀ a ∈ l, a.1 = i) (hk : k ≠ i) :
    tally l k = 0 := by
  rw [tally, List.count_eq_zero]
  intro hmem
  obtain ⟨a,ha,rfl⟩ := List.mem_map.mp hmem
  exact hk (h a ha)

/-- Nothing stands in the store but what `lsof` gave and what the readers after it were asked
for, and that as often as they were. -/
theorem build_inventory {env : Surroundings} {ops : Text} {diggers : List DataDigger}
    (hd : ∀ d ∈ diggers, d.1 ≠ .lsof) {b : Built} (h : build env ((.lsof,ops) :: diggers) = .ok b)
    {key : ℤ} {p : ProcFile} (hp : b.procMap.find? key = some p) :
    (∀ k ≠ .pid, tally p.attributes k = askedOfProcess env.sys diggers key k) ∧
    ∀ j u, p.ulFiles.find? j = some u → ∀ k ≠ .flags,
      tally u.attributes k = askedOfFile env.sys env.ULF_TXT_FD diggers key j k := by
  unfold build at h
  rw [run_cons] at h
  obtain ⟨b₀,h₀,hrun⟩ := bind_eq_ok.mp h
  have hfiled : b₀.procMap.Filed := Built.dig_filed (b := Built.init) OMap.each_empty h₀
  have hbare : b₀.procMap.Bare := by
    obtain ⟨r,hr,he⟩ := bind_eq_ok.mp h₀
    cases he
    exact getFilesInfo_bare OMap.each_empty hr
  obtain ⟨p₀,hp₀,hgains⟩ := run_dig_gained hd hfiled hrun key p hp
  refine ⟨fun k hk => ?_,fun j u hu k hk => ?_⟩
  · rw [hgains.own, tally_eq_zero (hbare key p₀ hp₀).own hk, Nat.zero_add]
  · obtain ⟨u₀,hu₀,hcount⟩ := hgains.files j u hu
    rw [hcount, tally_eq_zero ((hbare key p₀ hp₀).files j u₀ hu₀) hk, Nat.zero_add]

/-- The readers that `main` runs after `lsof`. -/
def MainOptions.after (o : MainOptions) : List DataDigger :=
  (if o.proc_ops ≠ NO then [(.proc,o.proc_ops)] else []) ++
    if o.file_ops ≠ NO then [(.filestat,o.file_ops)] else []

namespace MainOptions
variable {o : MainOptions}

theorem readersRun_cases (o : MainOptions) :
    o.readersRun = [] ∨ o.readersRun = (.lsof,LSOF_OPTS_DEFAULT) :: o.after := by
  by_cases hlength : o.funcvector.length ≠ 1
  · rw [readersRun, if_pos hlength]
    by_cases hok : o.flagsOkay = true
    · exact .inr (if_pos hok)
    · exact .inl (if_neg hok)
  · exact .inl (if_neg hlength)

theorem after_ne_lsof : ∀ d ∈ o.after, d.1 ≠ .lsof := by
  intro d hd
  rcases List.mem_append.mp hd with hd | hd <;> split_ifs at hd
  · cases List.mem_singleton.mp hd
    exact ReaderId.noConfusion
  · cases hd
  · cases List.mem_singleton.mp hd
    exact ReaderId.noConfusion
  · cases hd

theorem asked_after (k : CphfId) :
    (o.after.countP fun d => d.1 = .proc && ProcOption.chosen d.2 k) =
      (if o.proc_ops ≠ NO ∧ ProcOption.chosen o.proc_ops k then 1 else 0) ∧
    (o.after.countP fun d => d.1 = .filestat && FileOption.chosen d.2 k) =
      (if o.file_ops ≠ NO ∧ FileOption.chosen o.file_ops k then 1 else 0) := by
  unfold after
  by_cases hp : o.proc_ops = NO <;> by_cases hf : o.file_ops = NO <;>
    simp [hp, hf, List.countP_cons]

end MainOptions

/-- In a run of `main` a process has each attribute chosen for processes once, if its program can
be looked up, a file each attribute chosen for files, if its path can, and they have no others
but numbers and flags. -/
theorem runReaders_inventory {env : Surroundings} {o : MainOptions} {r : Built × List CphfFile}
    (h : o.runReaders env = .ok r) {key : ℤ} {p : ProcFile}
    (hp : r.1.procMap.find? key = some p) :
    (∀ k ≠ .pid, tally p.attributes k =
      if env.sys.stat (exePath env.sys (asUInt32 key)) = none then 0
      else if o.proc_ops ≠ NO ∧ ProcOption.chosen o.proc_ops k then 1 else 0) ∧
    ∀ j u, p.ulFiles.find? j = some u → ∀ k ≠ .flags, tally u.attributes k =
      if env.sys.stat (formPath env.ULF_TXT_FD (asUInt32 key) (asUInt32 j).toUInt64) = none then 0
      else if o.file_ops ≠ NO ∧ FileOption.chosen o.file_ops k then 1 else 0 := by
  obtain ⟨b,hb,he⟩ := bind_eq_ok.mp h
  cases he
  rcases o.readersRun_cases with hnone | hsome
  · rw [hnone] at hb
    cases hb
    cases hp
  · rw [hsome] at hb
    obtain ⟨hown,hfiles⟩ := build_inventory MainOptions.after_ne_lsof hb hp
    refine ⟨fun k hk => ?_,fun j u hu k hk => ?_⟩
    · rw [hown k hk, askedOfProcess, (MainOptions.asked_after k).1]
    · rw [hfiles j u hu k hk, askedOfFile, (MainOptions.asked_after k).2]

theorem runReaders_inventory_two : ∃ (r : Built × List CphfFile) (p : ProcFile),
    MainOptions.init.runReaders twoProcsFound = .ok r ∧ r.1.procMap.find? 7 = some p ∧
      (∀ k ≠ .pid, tally p.attributes k =
        if answering.stat (exePath answering (asUInt32 7)) = none then 0
        else if PROC_OPTS_DEFAULT ≠ NO ∧ ProcOption.chosen PROC_OPTS_DEFAULT k then 1 else 0) ∧
      ∀ j u, p.ulFiles.find? j = some u → ∀ k ≠ .flags, tally u.attributes k =
        if answering.stat (formPath twoProcsFound.ULF_TXT_FD (asUInt32 7)
          (asUInt32 j).toUInt64) = none then 0
        else if FILESTAT_OPTS_DEFAULT ≠ NO ∧ FileOption.chosen FILESTAT_OPTS_DEFAULT k then 1
          else 0 := by
  have hrun : (fun r => (r.1.procMap.find? 7).isSome) <$>
      MainOptions.init.runReaders twoProcsFound = .ok true := by
    decide +kernel
  obtain ⟨r,hr,hsome⟩ := map_eq_ok.mp hrun
  obtain ⟨p,hp⟩ := Option.isSome_iff_exists.mp hsome
  exact ⟨r,p,hr,hp,runReaders_inventory hr hp⟩

end Cphf
