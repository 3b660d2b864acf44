import Cphf.CLib.Lockstep
import Cphf.Completion

/-! Stores that look alike. A file's number only shows through the path it leads to, so stores
whose processes agree and whose files lead to the same paths in the same order are read alike,
and what is printed of them is the same. -/
namespace Cphf
open CLib

/-- The path a file is examined under. -/
def examined (T : UInt64) (pid : UInt32) (key : ℤ) : Text := formPath T pid (asUInt32 key).toUInt64

/-- Files that lead to the same path and have the same attributes. -/
structure FileAlike (T : UInt64) (pid : UInt32) (e e' : ℤ × UnlinkedFile) : Prop where
  path : examined T pid e.1 = examined T pid e'.1
  attributes : e.2.attributes = e'.2.attributes

structure ProcAlike (T : UInt64) (e e' : ℤ × ProcFile) : Prop where
  key : e.1 = e'.1
  pid : e.2.pid = e'.2.pid
  attributes : e.2.attributes = e'.2.attributes
  files : e.2.ulFiles.entries.Forall₂ (FileAlike T e.2.pid) e'.2.ulFiles.entries

def StoreAlike (T : UInt64) (m m' : ProcMap) : Prop := m.entries.Forall₂ (ProcAlike T) m'.entries

theorem storeAlike_refl (T : UInt64) (m : ProcMap) : StoreAlike T m m := by
  apply List.forall₂_same.mpr
  intro e _
  refine ⟨rfl,rfl,rfl,List.forall₂_same.mpr fun f _ => ⟨rfl,rfl⟩⟩

section
variable {sys : System} {T : UInt64} {options : Text} {m m' : ProcMap}

theorem readFileStatAttributes_alike {fid fid' pid : UInt32} {u u' : UnlinkedFile}
    (hpath : formPath T pid fid.toUInt64 = formPath T pid fid'.toUInt64)
    (h : u.attributes = u'.attributes) :
    Alike (fun v v' : UnlinkedFile => v.attributes = v'.attributes)
      (readFileStatAttributes sys T options fid pid u)
      (readFileStatAttributes sys T options fid' pid u') := by
  unfold readFileStatAttributes
  dsimp only
  rw [← hpath]
  cases sys.stat (formPath T pid fid.toUInt64) with
  | none => exact h
  | some stat =>
    apply (alike_eq.mpr rfl).bind
    rintro funcs _ rfl
    simp only [alike_ok, UnlinkedFile.addAttributes_attributes, h]

theorem ProcFile.addFileAttributes_alike {e e' : ℤ × ProcFile} (h : ProcAlike T e e') :
    Alike (fun q q' => ProcAlike T (e.1,q) (e'.1,q'))
      (e.2.addFileAttributes (readFileStatAttributes sys T options))
      (e'.2.addFileAttributes (readFileStatAttributes sys T options)) := by
  unfold addFileAttributes
  apply Alike.bind (OMap.traverse_alike (R := fun _ _ => True) (F := FileAlike T e.2.pid)
    (fun _ _ f f' _ hf => ?_) h.files trivial)
  · intro r r' hr
    exact ⟨h.key,h.pid,h.attributes,hr.2⟩
  · rw [alike_map]
    simp only [passedOn, ← h.pid]
    exact (readFileStatAttributes_alike hf.path hf.attributes).mono fun v v' hv =>
      ⟨trivial,hf.path,hv⟩

theorem FileStatReader.do_read_alike (h : StoreAlike T m m') :
    Alike (StoreAlike T) (do_read sys T options m) (do_read sys T options m') := by
  unfold do_read
  apply Alike.bind (OMap.traverse_alike (R := fun _ _ => True) (F := ProcAlike T)
    (fun _ _ e e' _ he => ?_) h trivial)
  · intro r r' hr
    exact hr.2
  · rw [alike_map]
    exact (ProcFile.addFileAttributes_alike he).mono fun q q' hq => ⟨trivial,hq⟩

/-- No option gives a number. -/
theorem ProcReader.gathered_ne_pid {i : ProcInfo} {funcs : ReaderFuncs}
    (h : gather (entry sys i) ∅ options = .ok funcs) : ∀ a ∈ funcs.entries, a.1 ≠ CphfId.pid := by
  refine all_of_gather (P := fun a => a.1 ≠ .pid) (entry_functional sys i) (fun c _ a ha => ?_) h
  obtain ⟨o,_,ho,_⟩ := (entry_eq_ok sys i).mp ha
  rw [ho]
  exact o.attribID_ne_pid

theorem ProcReader.gathered_pid {i : ProcInfo} {funcs : ReaderFuncs}
    (h : gather (entry sys i) ∅ options = .ok funcs) (p : ProcFile) :
    (p.addAttributes funcs.entries).pid = p.pid := ProcFile.addAttributes_pid (gathered_ne_pid h)

theorem ProcReader.visit_alike (st : ProcLoop) {e e' : ℤ × ProcFile} (h : ProcAlike T e e') :
    Alike (fun r r' => r.1 = r'.1 ∧ ProcAlike T (e.1,r.2) (e'.1,r'.2))
      (visit sys options st e.1 e.2) (visit sys options st e'.1 e'.2) := by
  obtain ⟨k,p⟩ := e
  obtain ⟨k',q⟩ := e'
  cases h.key
  rw [visit_eq, visit_eq]
  cases sys.stat (exePath sys (asUInt32 k)) with
  | none => exact ⟨rfl,h⟩
  | some info =>
    apply (alike_eq.mpr rfl).bind_ok
    rintro funcs _ hg _ rfl
    refine ⟨rfl,rfl,?_,?_,?_⟩
    · change (p.addAttributes funcs.entries).pid = (q.addAttributes funcs.entries).pid
      rw [gathered_pid hg, gathered_pid hg]
      exact h.pid
    · change (p.addAttributes funcs.entries).attributes = (q.addAttributes funcs.entries).attributes
      rw [ProcFile.addAttributes_attributes, ProcFile.addAttributes_attributes]
      exact congrArg (arranged .cmd · funcs.entries) h.attributes
    · change (p.addAttributes funcs.entries).ulFiles.entries.Forall₂
        (FileAlike T (p.addAttributes funcs.entries).pid) (q.addAttributes funcs.entries).ulFiles.entries
      rw [gathered_pid hg, ProcFile.addAttributes_ulFiles, ProcFile.addAttributes_ulFiles]
      exact h.files

theorem ProcReader.do_read_alike (fresh : ProcInfo) (h : StoreAlike T m m') :
    Alike (fun r r' => r.1 = r'.1 ∧ StoreAlike T r.2 r'.2) (do_read sys fresh options m)
      (do_read sys fresh options m') := by
  unfold do_read
  apply Alike.bind (OMap.traverse_alike (R := (· = ·)) (F := ProcAlike T)
    (fun st _ e e' hst he => by subst hst; exact visit_alike st he) h rfl)
  rintro r r' ⟨hst,hm⟩
  exact ⟨congrArg ProcLoop.printed hst,hm⟩

lemma FileAlike.entries {pid : UInt32} {l l' : List (ℤ × UnlinkedFile)}
    (h : l.Forall₂ (FileAlike T pid) l') :
    l.map (fun e => (CphfFile.file e.2).entry) = l'.map fun e => (CphfFile.file e.2).entry := by
  induction h with
  | nil => rfl
  | cons hf _ ih =>
    rw [List.map_cons, List.map_cons, ih, CphfFile.entry, hf.attributes]
    rfl

lemma ProcAlike.entries {e e' : ℤ × ProcFile} (h : ProcAlike T e e') (procs files : Bool) :
    ((if procs then [CphfFile.proc e.2] else []) ++ if files then e.2.flatten else []).map CphfFile.entry =
      ((if procs then [CphfFile.proc e'.2] else []) ++ if files then e'.2.flatten else []).map
        CphfFile.entry := by
  have hproc : (CphfFile.proc e.2).entry = (CphfFile.proc e'.2).entry :=
    congrArg (Entry.mk true) h.attributes
  have hfiles : e.2.flatten.map CphfFile.entry = e'.2.flatten.map CphfFile.entry := by
    unfold ProcFile.flatten
    rw [List.map_map, List.map_map]
    exact FileAlike.entries h.files
  cases procs <;> cases files <;> simp [hproc, hfiles]

/-- The queues of such stores have the same entries. -/
theorem flattenMap_alike (h : StoreAlike T m m') (procs files : Bool) :
    (flattenMap m procs files).map CphfFile.entry = (flattenMap m' procs files).map CphfFile.entry := by
  rw [flattenMap, flattenMap, List.map_flatMap, List.map_flatMap]
  unfold StoreAlike at h
  generalize m.entries = l at h
  generalize m'.entries = l' at h
  induction h with
  | nil => rfl
  | cons he _ ih => rw [List.flatMap_cons, List.flatMap_cons, ih, he.entries procs files]

end

/-- What is printed of a queue depends on its entries only. -/
theorem printFiles_congr (attributeFlags : AttributeFlags) {queue queue' : List CphfFile}
    (h : queue.map CphfFile.entry = queue'.map CphfFile.entry) :
    printFiles attributeFlags queue = printFiles attributeFlags queue' := by
  have hone : ∀ f f' : CphfFile, f.entry = f'.entry →
      printFile attributeFlags f = printFile attributeFlags f' := by
    intro f f' he
    cases f <;> cases f' <;> simp only [CphfFile.entry, Entry.mk.injEq, reduceCtorEq, false_and,
      true_and] at he <;> simp only [printFile, he]
  induction queue generalizing queue' with
  | nil =>
    rw [List.map_nil] at h
    rw [List.map_eq_nil_iff.mp h.symm]
  | cons f queue ih =>
    cases queue' with
    | nil => cases h
    | cons f' queue' =>
      obtain ⟨hf,hq⟩ := List.cons.inj h
      rw [printFiles, printFiles, hone f f' hf, ih hq]

/-- The output of `lsof` replaced. -/
def Surroundings.withLsof (env : Surroundings) (answer : LsofAnswer) : Surroundings :=
  { env with lsof := answer }

/-- Two states of a run that show the same. -/
structure Built.Alike (T : UInt64) (b b' : Built) : Prop where
  printed : b.printed = b'.printed
  attributeFlags : b.attributeFlags = b'.attributeFlags
  store : StoreAlike T b.procMap b'.procMap

section
variable {env : Surroundings} {answer : LsofAnswer}

theorem Built.dig_alike {ddig : DataDigger} (hd : ddig.1 ≠ .lsof) {b b' : Built}
    (h : b.Alike env.ULF_TXT_FD b') : CLib.Alike (Built.Alike env.ULF_TXT_FD) (b.dig env ddig)
      (b'.dig (env.withLsof answer) ddig) := by
  obtain ⟨reader,options⟩ := ddig
  cases reader with
  | lsof => exact absurd rfl hd
  | proc =>
    apply (ProcReader.do_read_alike env.fresh h.store).bind
    rintro r r' ⟨hp,hm⟩
    exact ⟨by simp only [h.printed, hp],by simp only [h.attributeFlags],hm⟩
  | filestat =>
    apply (FileStatReader.do_read_alike h.store).bind
    intro m m' hm
    exact ⟨h.printed,by simp only [h.attributeFlags],hm⟩

/-- The readers of `main`: none, or `lsof` and others. -/
theorem MainOptions.readersRun_shape (o : MainOptions) : o.readersRun = [] ∨
    ∃ l, o.readersRun = (.lsof,LSOF_OPTS_DEFAULT) :: l ∧ ∀ d ∈ l, d.1 ≠ ReaderId.lsof := by
  unfold readersRun funcvector
  cases o.flagsOkay with
  | false => exact .inl rfl
  | true =>
    by_cases hp : o.proc_ops = NO <;> by_cases hf : o.file_ops = NO <;> simp [hp, hf]
    rintro reader ops (⟨rfl,_⟩ | ⟨rfl,_⟩) <;> nofun

/-- When the output of `lsof` is read into a store that looks alike, so does the whole run. -/
theorem runReaders_alike (h : CLib.Alike (fun r r' => r.1 = r'.1 ∧ StoreAlike env.ULF_TXT_FD r.2 r'.2)
      (getFilesInfo env.ULF_TXT_FD env.lsof ∅) (getFilesInfo env.ULF_TXT_FD answer ∅))
    (o : MainOptions) : CLib.Alike (fun r r' => r.1.printed = r'.1.printed ∧
        r.1.attributeFlags = r'.1.attributeFlags ∧
        r.2.map CphfFile.entry = r'.2.map CphfFile.entry)
      (o.runReaders env) (o.runReaders (env.withLsof answer)) := by
  have hbuild : CLib.Alike (Built.Alike env.ULF_TXT_FD) (build env o.readersRun)
      (build (env.withLsof answer) o.readersRun) := by
    rcases o.readersRun_shape with hnil | ⟨l,hl,hnone⟩
    · rw [hnil]
      exact ⟨rfl,rfl,storeAlike_refl _ _⟩
    · rw [hl]
      apply CLib.Alike.bind (R := Built.Alike env.ULF_TXT_FD)
      · apply h.bind
        rintro r r' ⟨hp,hm⟩
        exact ⟨by rw [hp],rfl,hm⟩
      · intro b b' hb
        exact run_alike (fun s t d hd hst => Built.dig_alike (hnone d hd) hst) hb
  apply hbuild.bind
  intro b b' hb
  exact ⟨hb.printed,hb.attributeFlags,flattenMap_alike hb.store _ _⟩

/-- And the same is printed, or the same fault stops the program. -/
theorem main_alike (h : CLib.Alike (fun r r' => r.1 = r'.1 ∧ StoreAlike env.ULF_TXT_FD r.2 r'.2)
      (getFilesInfo env.ULF_TXT_FD env.lsof ∅) (getFilesInfo env.ULF_TXT_FD answer ∅))
    (charSigned : Bool) (n : ℕ) (answers : List GetoptAnswer) :
    main charSigned env n answers = main charSigned (env.withLsof answer) n answers := by
  unfold main
  congr 1
  funext o
  apply alike_eq.mp
  apply (runReaders_alike h o).bind
  rintro r r' ⟨hp,hflags,hq⟩
  rw [hp, hflags, printFiles_congr _ hq]
  exact alike_eq.mpr rfl

end
end Cphf
