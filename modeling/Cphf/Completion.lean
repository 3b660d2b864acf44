import Cphf.Lsof.Safety
import Cphf.Independence

/-! When the whole program gets to its end: nothing after the readers can stop it, and the readers
are stopped only by an unreadable stream or by an answer of the system that is missing. -/
namespace Cphf
open CLib

/-- What `lsof` gives can be read. -/
def LsofAnswer.Readable : LsofAnswer → Prop
  | .noPipe | .noFork => True
  | .output bytes => Cphf.Readable (tokens bytes)

theorem getFilesInfo_completes_iff (T : UInt64) (answer : LsofAnswer) (m : ProcMap) :
    Completes (getFilesInfo T answer m) ↔ answer.Readable := by
  cases answer with
  | noPipe | noFork => exact iff_of_true (completes_ok _) trivial
  | output bytes =>
    exact completes_map.trans ((completes_bufferedRead T m bytes).trans (Pointers.completes_iff bytes))

/-- When the arguments in force are good, no bad one was given last. -/
theorem not_lastBad {answers : List GetoptAnswer}
    (hp : ¬ BadArg PROC_OPTS_DEFAULT (lastProc answers))
    (hf : ¬ BadArg FILESTAT_OPTS_DEFAULT (lastFile answers)) : ¬ LastBad answers := by
  rintro ⟨⟨code,optarg⟩,ha,hbad⟩
  -- the last option of all is the last one of its kind
  have hlast : code ≠ .error → ∀ default, lastArg code default answers = optarg := by
    intro hne default
    obtain ⟨l,hl⟩ := List.getLast?_eq_some_iff.mp ha
    have hfilter : answers.filter (·.code = code) =
        (answers.filter (·.code ≠ .error)).filter (·.code = code) := by
      rw [List.filter_filter]
      apply List.filter_congr
      intro a _
      by_cases h : a.code = code <;> simp [h, hne]
    unfold lastArg
    rw [hfilter, hl, List.filter_append]
    simp
  cases code with
  | proc => exact hp (by rw [lastProc, hlast (by decide)]; exact hbad)
  | file => exact hf (by rw [lastFile, hlast (by decide)]; exact hbad)
  | error => exact hbad

section
variable {answers : List GetoptAnswer}

theorem main_eq {n : ℕ} (hn : answers.length < n) (env : Surroundings) :
    main true env n answers = some ((parsed answers).runReaders env >>= fun r =>
      printFiles r.1.attributeFlags r.2 >>= fun t =>
        .ok ((parsed answers).printed ++ r.1.printed ++ t)) := by
  unfold main
  rw [optionLoop_signed hn]
  rfl

/-- Printing does not stop a run that the readers got through. -/
theorem main_completes {n : ℕ} (hn : answers.length < n) (env : Surroundings) :
    ∃ r, main true env n answers = some r ∧
      (Completes r ↔ Completes ((parsed answers).runReaders env)) := by
  refine ⟨_,main_eq hn env,?_⟩
  rw [completes_bind]
  constructor
  · rintro ⟨r,hr,_⟩
    exact ⟨r,hr⟩
  · rintro ⟨r,hr⟩
    exact ⟨r,hr,completes_bind_ok.mpr (runReaders_prints hr)⟩

/-- With good arguments in force, the program gets to its end exactly when both readers are off, or
the output of `lsof` can be read and each reader that is on gets what its options need of the
processes and files listed there. -/
theorem main_completes_iff (hp : ¬ BadArg PROC_OPTS_DEFAULT (lastProc answers))
    (hf : ¬ BadArg FILESTAT_OPTS_DEFAULT (lastFile answers)) {n : ℕ} (hn : answers.length < n)
    (env : Surroundings) : ∃ r, main true env n answers = some r ∧ (Completes r ↔
      lastProc answers = NO ∧ lastFile answers = NO ∨
        env.lsof.Readable ∧ ∀ out m, getFilesInfo env.ULF_TXT_FD env.lsof ∅ = .ok (out,m) →
          (lastProc answers ≠ NO → ProcsAnswered env.sys (lastProc answers) env.fresh m) ∧
          (lastFile answers ≠ NO → FilesAnswered env.sys env.ULF_TXT_FD (lastFile answers) m)) := by
  obtain ⟨r,hr,hiff⟩ := main_completes hn env
  refine ⟨r,hr,hiff.trans ?_⟩
  have hok := (parsed_flagsOkay answers).mpr (not_lastBad hp hf)
  by_cases hno : lastProc answers = NO ∧ lastFile answers = NO
  · have hrun := readersRun_eq answers
    rw [requestedReaders, if_pos hno, ite_self] at hrun
    exact iff_of_true ⟨_,runReaders_nil hrun env⟩ (.inl hno)
  · have hno' := hno
    rw [← parsed_proc_ops] at hp hno'
    rw [← parsed_file_ops] at hf hno'
    rw [or_iff_right hno, ← getFilesInfo_completes_iff env.ULF_TXT_FD env.lsof ∅]
    have hgood : (parsed answers).Accepted := ⟨hok,hp,hf⟩
    rw [hgood.completes_iff hno']
    unfold MainOptions.procsAnswered MainOptions.filesAnswered
    rw [parsed_proc_ops, parsed_file_ops]
    cases getFilesInfo env.ULF_TXT_FD env.lsof ∅ with
    | error e => simp
    | ok s => simp only [exists_ok_iff, forall_ok_iff, completes_ok, true_and]

end

/-- One process with one file on a system that answers, and every option. -/
theorem main_completes_one : ∃ r, main true oneRecord 1 [] = some r ∧ (Completes r ↔
    lastProc [] = NO ∧ lastFile [] = NO ∨ oneRecord.lsof.Readable ∧ ∀ out m,
      getFilesInfo oneRecord.ULF_TXT_FD oneRecord.lsof ∅ = .ok (out,m) →
        (lastProc [] ≠ NO → ProcsAnswered oneRecord.sys (lastProc []) oneRecord.fresh m) ∧
        (lastFile [] ≠ NO → FilesAnswered oneRecord.sys oneRecord.ULF_TXT_FD (lastFile []) m)) :=
  main_completes_iff (lastArg_good fun _ h => (by cases h)) (lastArg_good fun _ h => (by cases h))
    Nat.one_pos oneRecord

end Cphf
