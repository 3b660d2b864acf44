import Cphf.CLib.Interleave
import Cphf.EndToEnd

/-! The two readers that look at processes and at files work on different parts of the store, so
nothing depends on how they take turns. -/
namespace Cphf
open CLib

theorem ProcFile.addAttributes_setFiles (p : ProcFile) (files : OMap ℤ UnlinkedFile)
    (l : List CphfAttribute) :
    { p with ulFiles := files }.addAttributes l = { p.addAttributes l with ulFiles := files } := by
  induction l generalizing p with
  | nil => rfl
  | cons a l ih =>
    obtain ⟨i,v⟩ := a
    have hone : { p with ulFiles := files }.addAttribute i v =
        { p.addAttribute i v with ulFiles := files } := by cases i <;> rfl
    change ({ p with ulFiles := files }.addAttribute i v).addAttributes l = _
    rw [hone, ih]
    rfl

section
variable {sys : System} {T : UInt64} {options foptions : Text}

/-- A process can be read before its files or after them. -/
lemma visit_addFileAttributes {st st' : ProcLoop} {k : ℤ} {p q : ProcFile} :
    (∃ u, ProcReader.visit sys options st k p = .ok (st',u) ∧
      u.addFileAttributes (readFileStatAttributes sys T foptions) = .ok q) ↔
    ∃ u, p.addFileAttributes (readFileStatAttributes sys T foptions) = .ok u ∧
      ProcReader.visit sys options st k u = .ok (st',q) := by
  simp only [ProcReader.visit_eq]
  cases sys.stat (exePath sys (asUInt32 k)) with
  | none =>
    simp only [Except.ok.injEq, Prod.mk.injEq]
    constructor
    · rintro ⟨u,⟨hst,rfl⟩,hq⟩
      exact ⟨q,hq,hst,rfl⟩
    · rintro ⟨u,hu,hst,rfl⟩
      exact ⟨p,⟨hst,rfl⟩,hu⟩
  | some info =>
    simp only [bind_eq_ok, Except.ok.injEq, Prod.mk.injEq, ProcFile.addFileAttributes_ok]
    constructor
    · rintro ⟨u,⟨funcs,hg,hst,rfl⟩,files,hf,rfl⟩
      refine ⟨_,⟨files,?_,rfl⟩,funcs,hg,hst,p.addAttributes_setFiles files _⟩
      simpa only [ProcFile.passedOn, ProcReader.gathered_pid hg, ProcFile.addAttributes_ulFiles]
        using hf
    · rintro ⟨u,⟨files,hf,rfl⟩,funcs,hg,hst,rfl⟩
      refine ⟨_,⟨funcs,hg,hst,rfl⟩,files,?_,p.addAttributes_setFiles files _⟩
      simpa only [ProcFile.passedOn, ProcReader.gathered_pid hg, ProcFile.addAttributes_ulFiles]
        using hf

/-- So can all processes. -/
theorem do_read_swap {fresh : ProcInfo} {m m' : ProcMap} {out : Text} :
    (∃ m₁, ProcReader.do_read sys fresh options m = .ok (out,m₁) ∧
      FileStatReader.do_read sys T foptions m₁ = .ok m') ↔
    ∃ m₁, FileStatReader.do_read sys T foptions m = .ok m₁ ∧
      ProcReader.do_read sys fresh options m₁ = .ok (out,m') := by
  unfold ProcReader.do_read FileStatReader.do_read
  simp only [bind_eq_ok, Except.ok.injEq, Prod.mk.injEq]
  constructor
  · rintro ⟨m₁,⟨⟨st,_⟩,hp,rfl,rfl⟩,⟨_,_⟩,hf,rfl⟩
    obtain ⟨m₂,hf',hp'⟩ := OMap.traverse_swap (fun s t s' t' k v u w hv hw => by
      obtain ⟨w',hw,he⟩ := map_eq_ok.mp hw
      cases he
      obtain ⟨u',hu,hv'⟩ := visit_addFileAttributes.mp ⟨u,hv,hw⟩
      exact ⟨u',map_eq_ok.mpr ⟨_,hu,rfl⟩,hv'⟩) hp hf
    exact ⟨m₂,⟨_,hf',rfl⟩,_,hp',rfl,rfl⟩
  · rintro ⟨m₁,⟨⟨_,_⟩,hf,rfl⟩,⟨st,_⟩,hp,rfl,rfl⟩
    obtain ⟨m₂,hp',hf'⟩ := OMap.traverse_swap (fun s t s' t' k v u w hv hw => by
      obtain ⟨u',hu,he⟩ := map_eq_ok.mp hv
      cases he
      obtain ⟨p,hp,hw'⟩ := visit_addFileAttributes.mpr ⟨u,hu,hw⟩
      exact ⟨p,hp,map_eq_ok.mpr ⟨_,hw',rfl⟩⟩) hf hp
    exact ⟨m₂,⟨_,hp',rfl,rfl⟩,_,hf',rfl⟩

end

theorem find?_createAttribMap_eq (ids : List CphfId) (attribFlags : AttributeFlags) (i : CphfId) :
    (createAttribMap ids attribFlags).find? i =
      (attribFlags.find? i).or (if i ∈ ids then some i.label else none) := by
  induction ids generalizing attribFlags with
  | nil => simp [createAttribMap]
  | cons j ids ih =>
    apply (ih _).trans
    rw [OMap.find?_insertNew]
    by_cases hij : i = j
    · subst hij
      cases attribFlags.find? i <;> simp
    · simp [hij]

/-- Labels may be registered in any order. -/
theorem createAttribMap_comm (ids ids' : List CphfId) (attribFlags : AttributeFlags) :
    createAttribMap ids (createAttribMap ids' attribFlags) =
      createAttribMap ids' (createAttribMap ids attribFlags) := by
  apply OMap.ext_find?
  intro i
  simp only [find?_createAttribMap_eq]
  split_ifs <;> cases attribFlags.find? i <;> rfl

/-- The two readers swap. -/
theorem Built.dig_swaps (env : Surroundings) (options foptions : Text) :
    Swaps (Built.dig env) (.proc,options) (.filestat,foptions) := by
  intro b b'
  rw [run_pair_ok, run_pair_ok]
  simp only [Built.dig, bind_eq_ok, Except.ok.injEq]
  constructor
  · rintro ⟨_,⟨⟨out,m₁⟩,hp,rfl⟩,m₂,hf,rfl⟩
    obtain ⟨n,hf',hp'⟩ := do_read_swap.mp ⟨m₁,hp,hf⟩
    exact ⟨_,⟨n,hf',rfl⟩,_,hp',by rw [createAttribMap_comm]⟩
  · rintro ⟨_,⟨m₁,hf,rfl⟩,⟨out,m₂⟩,hp,rfl⟩
    obtain ⟨n,hp',hf'⟩ := do_read_swap.mpr ⟨m₁,hf,hp⟩
    exact ⟨_,⟨_,hp',rfl⟩,m₂,hf',by rw [createAttribMap_comm]⟩

section
variable {env : Surroundings} {b b' : Built} {l l' : List DataDigger}

lemma run_dig_separate (h : ∀ d ∈ l, d.1 ≠ ReaderId.lsof) : run (Built.dig env) b l = .ok b' ↔
    run (Built.dig env) b (l.filter (·.1 = .proc) ++ l.filter (·.1 = .filestat)) = .ok b' := by
  have hfilter : l.filter (·.1 = .filestat) = l.filter fun d => !decide (d.1 = .proc) := by
    apply List.filter_congr
    intro d hd
    have hne := h d hd
    cases hr : d.1 <;> simp_all
  rw [hfilter]
  apply run_separate (fun d : DataDigger => decide (d.1 = .proc))
  rintro ⟨reader,options⟩ _ ⟨reader',foptions⟩ hd hr hr'
  have hne := h _ hd
  cases of_decide_eq_true hr
  cases reader' with
  | lsof => exact absurd rfl hne
  | proc => simp at hr'
  | filestat => exact Built.dig_swaps env options foptions

/-- However the readers of processes and of files take turns, the store, the labels and the text
printed come out the same, as long as each has its own turns in the same order. -/
theorem run_dig_interleaved (h : ∀ d ∈ l ++ l', d.1 ≠ ReaderId.lsof)
    (hproc : l.filter (·.1 = .proc) = l'.filter (·.1 = .proc))
    (hfile : l.filter (·.1 = .filestat) = l'.filter (·.1 = .filestat)) :
    run (Built.dig env) b l = .ok b' ↔ run (Built.dig env) b l' = .ok b' := by
  rw [run_dig_separate fun d hd => h d (List.mem_append_left _ hd),
    run_dig_separate fun d hd => h d (List.mem_append_right _ hd), hproc, hfile]

end

/-- Three turns in two orders. -/
theorem run_dig_interleaved_three : ∃ b, run (Built.dig oneRecord) ⟨[],∅,oneFile⟩
      [(.proc,"c".toList),(.filestat,"n".toList),(.proc,"P".toList)] = .ok b ∧
    run (Built.dig oneRecord) ⟨[],∅,oneFile⟩
      [(.filestat,"n".toList),(.proc,"c".toList),(.proc,"P".toList)] = .ok b := by
  have hrun : (fun b : Built => b.procMap.entries.length) <$> run (Built.dig oneRecord)
      ⟨[],∅,oneFile⟩ [(.proc,"c".toList),(.filestat,"n".toList),(.proc,"P".toList)] = .ok 1 := by
    decide +kernel
  obtain ⟨b,hb,_⟩ := map_eq_ok.mp hrun
  exact ⟨b,hb,(run_dig_interleaved (by decide) (by decide) (by decide)).mp hb⟩

end Cphf
