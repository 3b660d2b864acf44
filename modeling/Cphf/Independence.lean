import Cphf.Labels
import Cphf.CommandLine
import Cphf.Readers.Filtering

/-! The two readers of `/proc` do not interfere. `ProcReader` leaves the numbers and the files of
the processes alone, `FileStatReader` their attributes, and neither looks at what the other
writes; so what is printed about the files depends on the options for processes only when these
end the run, and the other way round. -/
namespace Cphf
open CLib

/-- What `FileStatReader` works on. -/
def ProcFile.filesView (p : ProcFile) : UInt32 × OMap ℤ UnlinkedFile := (p.pid,p.ulFiles)

theorem ProcFile.addAttributes_pid {p : ProcFile} {l : List CphfAttribute}
    (h : ∀ a ∈ l, a.1 ≠ .pid) : (p.addAttributes l).pid = p.pid := by
  induction l generalizing p with
  | nil => rfl
  | cons a l ih =>
    rw [List.forall_mem_cons] at h
    exact (ih h.2).trans (p.addAttribute_pid h.1 a.2)

theorem ProcOption.attribID_ne_pid (o : ProcOption) : o.attribID ≠ .pid := by cases o <;> decide

theorem ProcFile.addFileAttributes_congr
    {func : UInt32 → UInt32 → UnlinkedFile → Except Fault UnlinkedFile} {p p' q q' : ProcFile}
    (h : p.filesView = p'.filesView) (hq : p.addFileAttributes func = .ok q)
    (hq' : p'.addFileAttributes func = .ok q') : q.filesView = q'.filesView := by
  obtain ⟨pid,attributes,ulFiles⟩ := p
  obtain ⟨pid',attributes',ulFiles'⟩ := p'
  cases h
  obtain ⟨files,hf,rfl⟩ := addFileAttributes_ok.mp hq
  obtain ⟨files',hf',rfl⟩ := addFileAttributes_ok.mp hq'
  rw [show files = files' from (Prod.mk.inj (Except.ok.inj (hf.symm.trans hf'))).2]
  rfl

section
variable {sys : System} {m m' : ProcMap}

theorem ProcReader.do_read_files {fresh : ProcInfo} {options out : Text}
    (h : do_read sys fresh options m = .ok (out,m')) :
    m'.map ProcFile.filesView = m.map ProcFile.filesView := by
  apply OMap.ext_find?
  intro k
  rw [OMap.find?_map, OMap.find?_map]
  cases hp : m.find? k with
  | none =>
    obtain ⟨⟨st,m₁⟩,ht,he⟩ := bind_eq_ok.mp h
    cases he
    rw [(OMap.find?_traverse_eq_none ht k).mpr hp]
  | some p =>
    obtain ⟨q,hq,st,st',hv⟩ := do_read_process h hp
    rw [hq]
    rcases visit_eq_ok hv with ⟨_,rfl⟩ | ⟨info,funcs,_,hg,rfl⟩
    · rfl
    · have hid : ∀ a ∈ funcs.entries, a.1 ≠ .pid :=
        all_of_gather (entry_functional sys _) (fun c _ a ha => by
          obtain ⟨o,_,ho,_⟩ := (entry_eq_ok sys _).mp ha
          exact ho ▸ o.attribID_ne_pid) hg
      simp [ProcFile.filesView, ProcFile.addAttributes_pid hid]

theorem FileStatReader.do_read_eq_none {T : UInt64} {options : Text}
    (h : do_read sys T options m = .ok m') (k : ℤ) : m'.find? k = none ↔ m.find? k = none := by
  obtain ⟨⟨_,m₁⟩,ht,he⟩ := bind_eq_ok.mp h
  cases he
  exact OMap.find?_traverse_eq_none ht k

theorem FileStatReader.do_read_attributes {T : UInt64} {options : Text}
    (h : do_read sys T options m = .ok m') :
    m'.map ProcFile.attributes = m.map ProcFile.attributes := by
  apply OMap.ext_find?
  intro k
  rw [OMap.find?_map, OMap.find?_map]
  cases hp : m.find? k with
  | none => rw [(do_read_eq_none h k).mpr hp]
  | some p =>
    obtain ⟨files,hq,_⟩ := do_read_process h hp
    rw [hq]
    rfl

/-- The files come out alike for stores with the same numbers and files. -/
theorem FileStatReader.do_read_congr {T : UInt64} {options : Text} {n n' : ProcMap}
    (hview : m.map ProcFile.filesView = n.map ProcFile.filesView)
    (h : do_read sys T options m = .ok m') (hn : do_read sys T options n = .ok n') :
    m'.map ProcFile.filesView = n'.map ProcFile.filesView := by
  apply OMap.ext_find?
  intro k
  have hk := congrArg (OMap.find? · k) hview
  simp only [OMap.find?_map] at hk ⊢
  cases hp : m.find? k with
  | none =>
    have hp' : n.find? k = none := by simpa [hp] using hk.symm
    rw [(do_read_eq_none h k).mpr hp, (do_read_eq_none hn k).mpr hp']
  | some p =>
    rw [hp, Option.map_some] at hk
    obtain ⟨p',hp',hv⟩ := Option.map_eq_some_iff.mp hk.symm
    obtain ⟨q,hq,hadd⟩ := do_read_added h hp
    obtain ⟨q',hq',hadd'⟩ := do_read_added hn hp'
    rw [hq, hq', Option.map_some, Option.map_some,
      ProcFile.addFileAttributes_congr hv.symm hadd hadd']

end

/-- What is printed of an entry whose attributes have their own labels. -/
def Entry.text (e : Entry) : Text :=
  (if e.proc then separator ++ ['\n'] else []) ++
    e.attributes.flatMap (fun a => (if e.proc then procLine else fileLine) a.1.label a.2) ++ ['\n']

section
variable {attributeFlags : AttributeFlags} (hflags : OwnLabels attributeFlags)
include hflags

theorem printAttributes_eq (prettyprinter : Text → Text → Text) {l : List CphfAttribute}
    (h : ∀ a ∈ l, HasLabel attributeFlags a) : printAttributes attributeFlags prettyprinter l =
      .ok (l.flatMap fun a => prettyprinter a.1.label a.2) := by
  induction l with
  | nil => rfl
  | cons a l ih =>
    rw [List.forall_mem_cons] at h
    obtain ⟨label,hl⟩ := Option.isSome_iff_exists.mp h.1
    rw [printAttributes, hl]
    dsimp only
    rw [ih h.2, hflags _ _ hl]
    rfl

theorem printFile_eq {f : CphfFile} (h : ∀ a ∈ f.entry.attributes, HasLabel attributeFlags a) :
    printFile attributeFlags f = .ok f.entry.text := by
  cases f with
  | proc pf =>
    have hp := printAttributes_eq hflags procLine h
    simp only [CphfFile.entry] at hp
    simp [printFile, hp, Entry.text, CphfFile.entry]
  | file ulf =>
    have hu := printAttributes_eq hflags fileLine h
    simp only [CphfFile.entry] at hu
    simp [printFile, hu, Entry.text, CphfFile.entry]

/-- The report is the concatenation of what is printed of its entries. -/
theorem printFiles_eq {queue : List CphfFile}
    (h : ∀ f ∈ queue, ∀ a ∈ f.entry.attributes, HasLabel attributeFlags a) :
    printFiles attributeFlags queue = .ok ((queue.map CphfFile.entry).flatMap Entry.text) := by
  induction queue with
  | nil => rfl
  | cons f queue ih =>
    rw [List.forall_mem_cons] at h
    rw [printFiles, printFile_eq hflags h.1, ih h.2]
    rfl

end

/-- What `main` prints of the store, the readers having run. -/
theorem runReaders_text {env : Surroundings} {o : MainOptions} {r : Built × List CphfFile}
    (h : o.runReaders env = .ok r) : printFiles r.1.attributeFlags r.2 =
      .ok ((r.2.map CphfFile.entry).flatMap Entry.text) := by
  have hlabels := printFiles_completes_iff.mp (runReaders_prints h)
  obtain ⟨b,hb,he⟩ := bind_eq_ok.mp h
  cases he
  exact printFiles_eq (build_ownLabels hb) hlabels

/-- The entries of processes, or those of files, in their order. -/
def entriesOf (proc : Bool) (queue : List CphfFile) : List Entry :=
  (queue.map CphfFile.entry).filter (·.proc = proc)

/-- The files of a queue are those of the processes in turn. -/
theorem entriesOf_files (m : ProcMap) (procs : Bool) : entriesOf false (flattenMap m procs true) =
    (m.map ProcFile.filesView).entries.flatMap fun e =>
      e.2.2.entries.map fun u => ⟨false,u.2.attributes⟩ := by
  change _ = (m.entries.map fun e => (e.1,e.2.filesView)).flatMap _
  unfold entriesOf flattenMap
  induction m.entries with
  | nil => rfl
  | cons e l ih =>
    rw [List.flatMap_cons, List.map_append, List.filter_append, ih, List.map_cons,
      List.flatMap_cons]
    congr 1
    cases procs <;>
      simp [ProcFile.flatten, ProcFile.filesView, CphfFile.entry, Function.comp_def,
        List.filter_eq_self] <;>
      rintro _ _ u _ rfl <;> rfl

theorem entriesOf_procs (m : ProcMap) (files : Bool) : entriesOf true (flattenMap m true files) =
    (m.map ProcFile.attributes).entries.map fun e => ⟨true,e.2⟩ := by
  change _ = (m.entries.map fun e => (e.1,e.2.attributes)).map _
  unfold entriesOf flattenMap
  induction m.entries with
  | nil => rfl
  | cons e l ih =>
    rw [List.flatMap_cons, List.map_append, List.filter_append, ih, List.map_cons, List.map_cons]
    cases files with
    | false => simp [CphfFile.entry]
    | true =>
      simp [ProcFile.flatten, CphfFile.entry, Function.comp_def]
      rintro _ _ u _ rfl
      rfl

/-- A reader runs unless its option string is the word that switches it off. -/
def Built.digUnless (env : Surroundings) (reader : ReaderId) (ops : Text) (b : Built) :
    Except Fault Built :=
  if ops = NO then .ok b else b.dig env (reader,ops)

/-- The readers of a run one after the other. -/
theorem runReaders_eq {o : MainOptions} (hok : o.flagsOkay = true)
    (hno : ¬ (o.proc_ops = NO ∧ o.file_ops = NO)) (env : Surroundings) :
    o.runReaders env = Built.init.dig env (.lsof,LSOF_OPTS_DEFAULT) >>= fun b₀ =>
      b₀.digUnless env .proc o.proc_ops >>= fun b₁ =>
        b₁.digUnless env .filestat o.file_ops >>= fun b₂ =>
          .ok (b₂,flattenMap b₂.procMap (o.proc_ops ≠ NO) (o.file_ops ≠ NO)) := by
  unfold MainOptions.runReaders MainOptions.readersRun MainOptions.funcvector MainOptions.procs
    MainOptions.files build Built.digUnless
  by_cases hp : o.proc_ops = NO <;> by_cases hf : o.file_ops = NO
  · exact absurd ⟨hp,hf⟩ hno
  · simp [hok, hp, hf, bind_assoc]
  · simp [hok, hp, hf, bind_assoc]
  · simp [hok, hp, hf, bind_assoc]

section
variable {env : Surroundings} {ops : Text} {b b' : Built}

theorem Built.digUnless_files (h : b.digUnless env .proc ops = .ok b') :
    b'.procMap.map ProcFile.filesView = b.procMap.map ProcFile.filesView := by
  unfold digUnless at h
  split_ifs at h
  · cases h
    rfl
  · obtain ⟨r,hr,he⟩ := bind_eq_ok.mp h
    cases he
    exact ProcReader.do_read_files hr

theorem Built.digUnless_attributes (h : b.digUnless env .filestat ops = .ok b') :
    b'.procMap.map ProcFile.attributes = b.procMap.map ProcFile.attributes := by
  unfold digUnless at h
  split_ifs at h
  · cases h
    rfl
  · obtain ⟨m,hm,he⟩ := bind_eq_ok.mp h
    cases he
    exact FileStatReader.do_read_attributes hm

theorem Built.digUnless_filestat_eq (hne : ops ≠ NO) (h : b.digUnless env .filestat ops = .ok b') :
    FileStatReader.do_read env.sys env.ULF_TXT_FD ops b.procMap = .ok b'.procMap := by
  rw [digUnless, if_neg hne] at h
  obtain ⟨m,hm,he⟩ := bind_eq_ok.mp h
  cases he
  exact hm

theorem Built.digUnless_proc_completes_iff (hops : ¬ BadArg PROC_OPTS_DEFAULT ops) :
    Completes (b.digUnless env .proc ops) ↔
      (ops ≠ NO → ProcsAnswered env.sys ops env.fresh b.procMap) := by
  unfold digUnless
  split_ifs with h
  · simp [h]
  · have hs := mem_of_not_badArg hops h
    exact (completes_bind_ok.trans (ProcReader.do_read_completes_iff hs)).trans (by simp [h])

theorem Built.digUnless_filestat_completes_iff (hops : ¬ BadArg FILESTAT_OPTS_DEFAULT ops) :
    Completes (b.digUnless env .filestat ops) ↔
      (ops ≠ NO → FilesAnswered env.sys env.ULF_TXT_FD ops b.procMap) := by
  unfold digUnless
  split_ifs with h
  · simp [h]
  · have hs := mem_of_not_badArg hops h
    exact (completes_bind_ok.trans (FileStatReader.do_read_completes_iff hs)).trans (by simp [h])

end

/-- What the files need does not depend on the attributes of the processes. -/
theorem filesAnswered_of_view {sys : System} {T : UInt64} {ops : Text} {m n : ProcMap}
    (hview : m.map ProcFile.filesView = n.map ProcFile.filesView)
    (h : FilesAnswered sys T ops m) : FilesAnswered sys T ops n := by
  intro k p hp
  have hk := congrArg (OMap.find? · k) hview
  simp only [OMap.find?_map, hp, Option.map_some] at hk
  obtain ⟨p',hp',hv⟩ := Option.map_eq_some_iff.mp hk
  obtain ⟨hpid,hfiles⟩ := Prod.mk.inj hv
  rw [← hpid, ← hfiles]
  exact h k p' hp'

/-- A run goes through the store that `lsof` leaves, that of `ProcReader` and that of
`FileStatReader`. -/
theorem runReaders_stages {env : Surroundings} {o : MainOptions} (hok : o.flagsOkay = true)
    (hno : ¬ (o.proc_ops = NO ∧ o.file_ops = NO)) {r : Built × List CphfFile}
    (h : o.runReaders env = .ok r) :
    ∃ b₀ b₁ b₂, Built.init.dig env (.lsof,LSOF_OPTS_DEFAULT) = .ok b₀ ∧
      b₀.digUnless env .proc o.proc_ops = .ok b₁ ∧ b₁.digUnless env .filestat o.file_ops = .ok b₂ ∧
      r = (b₂,flattenMap b₂.procMap (o.proc_ops ≠ NO) (o.file_ops ≠ NO)) := by
  rw [runReaders_eq hok hno] at h
  obtain ⟨b₀,h₀,h⟩ := bind_eq_ok.mp h
  obtain ⟨b₁,h₁,h⟩ := bind_eq_ok.mp h
  obtain ⟨b₂,h₂,he⟩ := bind_eq_ok.mp h
  cases he
  exact ⟨b₀,b₁,b₂,h₀,h₁,h₂,rfl⟩

section
variable {env : Surroundings} {o₁ o₂ : MainOptions} {r₁ r₂ : Built × List CphfFile}

/-- The options for processes do not show in what is printed about files. -/
theorem runReaders_files (hok₁ : o₁.flagsOkay = true) (hok₂ : o₂.flagsOkay = true)
    (heq : o₁.file_ops = o₂.file_ops) (hne : o₁.file_ops ≠ NO) (hr₁ : o₁.runReaders env = .ok r₁)
    (hr₂ : o₂.runReaders env = .ok r₂) : entriesOf false r₁.2 = entriesOf false r₂.2 := by
  have hne₂ : o₂.file_ops ≠ NO := heq ▸ hne
  obtain ⟨b₀,b₁,b₂,h₀,h₁,h₂,rfl⟩ := runReaders_stages hok₁ (fun h => hne h.2) hr₁
  obtain ⟨c₀,c₁,c₂,g₀,g₁,g₂,rfl⟩ := runReaders_stages hok₂ (fun h => hne₂ h.2) hr₂
  rw [h₀] at g₀
  cases g₀
  have hview := (Built.digUnless_files h₁).trans (Built.digUnless_files g₁).symm
  have hread := Built.digUnless_filestat_eq hne h₂
  rw [heq] at hread
  have hfiles := FileStatReader.do_read_congr hview hread (Built.digUnless_filestat_eq hne₂ g₂)
  simp only [ne_eq, hne, hne₂, not_false_eq_true, decide_true, entriesOf_files, hfiles]

/-- The options for files do not show in what is printed about processes. -/
theorem runReaders_procs (hok₁ : o₁.flagsOkay = true) (hok₂ : o₂.flagsOkay = true)
    (heq : o₁.proc_ops = o₂.proc_ops) (hne : o₁.proc_ops ≠ NO) (hr₁ : o₁.runReaders env = .ok r₁)
    (hr₂ : o₂.runReaders env = .ok r₂) : entriesOf true r₁.2 = entriesOf true r₂.2 := by
  have hne₂ : o₂.proc_ops ≠ NO := heq ▸ hne
  obtain ⟨b₀,b₁,b₂,h₀,h₁,h₂,rfl⟩ := runReaders_stages hok₁ (fun h => hne h.1) hr₁
  obtain ⟨c₀,c₁,c₂,g₀,g₁,g₂,rfl⟩ := runReaders_stages hok₂ (fun h => hne₂ h.1) hr₂
  rw [h₀] at g₀
  cases g₀
  rw [← heq, h₁] at g₁
  cases g₁
  have hattributes := (Built.digUnless_attributes h₂).trans (Built.digUnless_attributes g₂).symm
  simp only [ne_eq, hne, hne₂, not_false_eq_true, decide_true, entriesOf_procs, hattributes]

end

/-- A run gets through exactly when each reader it asks for does, on the store of `lsof`. -/
theorem runReaders_completes_iff {env : Surroundings} {out : Text} {m : ProcMap}
    (hm : getFilesInfo env.ULF_TXT_FD env.lsof ∅ = .ok (out,m)) {o : MainOptions}
    (hok : o.flagsOkay = true) (hno : ¬ (o.proc_ops = NO ∧ o.file_ops = NO))
    (hp : ¬ BadArg PROC_OPTS_DEFAULT o.proc_ops) (hf : ¬ BadArg FILESTAT_OPTS_DEFAULT o.file_ops) :
    Completes (o.runReaders env) ↔
      (o.proc_ops ≠ NO → ProcsAnswered env.sys o.proc_ops env.fresh m) ∧
      (o.file_ops ≠ NO → FilesAnswered env.sys env.ULF_TXT_FD o.file_ops m) := by
  have hdig : Built.init.dig env (.lsof,LSOF_OPTS_DEFAULT) =
      .ok ⟨out,createAttribMap LSOFReader.ids ∅,m⟩ := by
    change getFilesInfo env.ULF_TXT_FD env.lsof ∅ >>= _ = _
    rw [hm]
    rfl
  rw [runReaders_eq hok hno, hdig, ok_bind, completes_bind]
  constructor
  · rintro ⟨b₁,h₁,h⟩
    have hfiles := (Built.digUnless_filestat_completes_iff hf).mp (completes_bind_ok.mp h)
    exact ⟨(Built.digUnless_proc_completes_iff hp).mp ⟨b₁,h₁⟩,
      fun hne => filesAnswered_of_view (Built.digUnless_files h₁) (hfiles hne)⟩
  · rintro ⟨hprocs,hfiles⟩
    have hproc : Completes (Built.digUnless env .proc o.proc_ops
        ⟨out,createAttribMap LSOFReader.ids ∅,m⟩) :=
      (Built.digUnless_proc_completes_iff hp).mpr hprocs
    obtain ⟨b₁,h₁⟩ := hproc
    refine ⟨b₁,h₁,completes_bind_ok.mpr ((Built.digUnless_filestat_completes_iff hf).mpr ?_)⟩
    exact fun hne => filesAnswered_of_view (Built.digUnless_files h₁).symm (hfiles hne)

/-- Nothing speaks against the options. -/
structure MainOptions.Accepted (o : MainOptions) : Prop where
  flagsOkay : o.flagsOkay = true
  proc_ops : ¬ BadArg PROC_OPTS_DEFAULT o.proc_ops
  file_ops : ¬ BadArg FILESTAT_OPTS_DEFAULT o.file_ops

section
variable (env : Surroundings) (o : MainOptions) (m : ProcMap)

/-- `ProcReader`, if it is on, gets what its options need of the store. -/
def MainOptions.procsAnswered : Prop :=
  o.proc_ops ≠ NO → ProcsAnswered env.sys o.proc_ops env.fresh m

/-- `FileStatReader`, if it is on, does. -/
def MainOptions.filesAnswered : Prop :=
  o.file_ops ≠ NO → FilesAnswered env.sys env.ULF_TXT_FD o.file_ops m

/-- The entries of processes, or those of files, that are printed; none when the run does not
get through. -/
def MainOptions.entriesPrinted (proc : Bool) : Option (List Entry) :=
  match o.runReaders env with
  | .ok r => some (entriesOf proc r.2)
  | .error _ => none

end

section
variable {env : Surroundings} {o o₁ o₂ : MainOptions}

/-- A run gets through exactly when `lsof` can be read and leaves a store of which each reader
gets what it needs. -/
theorem MainOptions.Accepted.completes_iff (h : o.Accepted)
    (hno : ¬ (o.proc_ops = NO ∧ o.file_ops = NO)) : Completes (o.runReaders env) ↔
      ∃ out m, getFilesInfo env.ULF_TXT_FD env.lsof ∅ = .ok (out,m) ∧
        o.procsAnswered env m ∧ o.filesAnswered env m := by
  cases hlsof : getFilesInfo env.ULF_TXT_FD env.lsof ∅ with
  | error e =>
    simp only [reduceCtorEq, false_and, exists_false, iff_false]
    intro hrun
    rw [runReaders_eq h.flagsOkay hno, completes_bind] at hrun
    obtain ⟨b₀,h₀,_⟩ := hrun
    obtain ⟨r,hr,_⟩ := bind_eq_ok.mp h₀
    cases hlsof.symm.trans hr
  | ok s =>
    obtain ⟨out,m⟩ := s
    rw [runReaders_completes_iff hlsof h.flagsOkay hno h.proc_ops h.file_ops]
    constructor
    · exact fun hneeds => ⟨out,m,rfl,hneeds⟩
    · rintro ⟨_,_,⟨⟩,hneeds⟩
      exact hneeds

variable {proc : Bool} (hsame : ∀ r₁ r₂, o₁.runReaders env = .ok r₁ → o₂.runReaders env = .ok r₂ →
  entriesOf proc r₁.2 = entriesOf proc r₂.2)
include hsame

/-- Runs whose entries agree print the same exactly when both get through or neither does. -/
lemma entriesPrinted_eq_iff : o₁.entriesPrinted env proc = o₂.entriesPrinted env proc ↔
    (Completes (o₁.runReaders env) ↔ Completes (o₂.runReaders env)) := by
  unfold MainOptions.entriesPrinted
  cases h₁ : o₁.runReaders env <;> cases h₂ : o₂.runReaders env
  · simp
  · simp
  · simp
  · simp [hsame _ _ h₁ h₂]

lemma entriesPrinted_some_iff :
    (∃ l, o₁.entriesPrinted env proc = some l ∧ o₂.entriesPrinted env proc = some l) ↔
      Completes (o₁.runReaders env) ∧ Completes (o₂.runReaders env) := by
  unfold MainOptions.entriesPrinted
  cases h₁ : o₁.runReaders env <;> cases h₂ : o₂.runReaders env
  · simp
  · simp
  · simp
  · simp [hsame _ _ h₁ h₂]

end

/-- A store that was read is the one of which something is said. -/
lemma exists_ok_iff {ε : Type} {out : Text} {m : ProcMap} {P : ProcMap → Prop} :
    (∃ out' m', (.ok (out,m) : Except ε (Text × ProcMap)) = .ok (out',m') ∧ P m') ↔ P m :=
  ⟨fun ⟨_,_,h,hP⟩ => (Prod.mk.inj (Except.ok.inj h)).2 ▸ hP,fun hP => ⟨out,m,rfl,hP⟩⟩

lemma forall_ok_iff {ε : Type} {out : Text} {m : ProcMap} {P : ProcMap → Prop} :
    (∀ out' m', (.ok (out,m) : Except ε (Text × ProcMap)) = .ok (out',m') → P m') ↔ P m :=
  ⟨fun h => h out m rfl,fun hP _ _ h => (Prod.mk.inj (Except.ok.inj h)).2 ▸ hP⟩

/-- Two processes with a file each, of which the second has no program to be examined. -/
def twoListed (sys : System) : Surroundings :=
  ⟨some 1024,.output "p7\ng7\nf3\np8\ng7\nf4\n".toList,sys,default⟩

/-- What `--proc` and `--file` with these arguments make of the options. -/
def asked (proc_ops file_ops : String) : MainOptions :=
  parsed [⟨.proc,proc_ops.toList⟩,⟨.file,file_ops.toList⟩]

lemma asked_accepted {proc_ops file_ops : String}
    (hp : proc_ops.toList.all (· ∈ PROC_OPTS_DEFAULT) = true)
    (hf : file_ops.toList.all (· ∈ FILESTAT_OPTS_DEFAULT) = true) :
    (asked proc_ops file_ops).Accepted := by
  have hfile : ¬ BadArg FILESTAT_OPTS_DEFAULT file_ops.toList := fun ⟨_,c,hc,hn⟩ =>
    hn (accepted_of_all hf c hc)
  exact ⟨checkOptions_fst.mpr hfile,fun ⟨_,c,hc,hn⟩ => hn (accepted_of_all hp c hc),hfile⟩

end Cphf
