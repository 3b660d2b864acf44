import Cphf.Completion

/-! The errors in the arguments are all told in one run: every unknown flag of every option gets
its line, in the order given, before anything else is printed; and a run that stops at its
options prints nothing besides. -/
namespace Cphf
open CLib

/-- The unknown flags of an argument. -/
def unknownFlags (defaults options : Text) : Text :=
  if options = NO then [] else options.filter (· ∉ defaults)

/-- The line about an unknown flag. -/
def notAFlag (cmd : Text) (c : Char) : Text :=
  "ERROR: option ".toList ++ c :: " is not a recognized ".toList ++ cmd ++ " flag\n".toList

theorem mem_notAFlag (cmd : Text) (c : Char) : c ∈ notAFlag cmd c := by
  unfold notAFlag
  rw [List.append_assoc, List.append_assoc]
  exact List.mem_append_right _ List.mem_cons_self

/-- The unknown flags of an option, each with the name of the option. -/
def GetoptAnswer.unknown (a : GetoptAnswer) : List (Text × Char) :=
  match a.code with
  | .proc => (unknownFlags PROC_OPTS_DEFAULT a.optarg).map fun c => ("proc".toList,c)
  | .file => (unknownFlags FILESTAT_OPTS_DEFAULT a.optarg).map fun c => ("file".toList,c)
  | .error => []

/-- What is to be told about the arguments. -/
def errorLines (answers : List GetoptAnswer) : Text :=
  (answers.flatMap GetoptAnswer.unknown).flatMap fun e => notAFlag e.1 e.2

theorem checkOptions_snd (defaults options cmd : Text) : (checkOptions defaults options cmd).2 =
    ((unknownFlags defaults options).map fun c => (cmd,c)).flatMap fun e => notAFlag e.1 e.2 := by
  unfold checkOptions unknownFlags
  split_ifs with h
  · rfl
  · rw [List.flatMap_map]
    rfl

theorem unknownFlags_eq_nil {defaults options : Text} :
    unknownFlags defaults options = [] ↔ ¬ BadArg defaults options := by
  unfold unknownFlags BadArg
  split_ifs with h
  · simp [h]
  · simp [h]

theorem GetoptAnswer.unknown_eq_nil {a : GetoptAnswer} : a.unknown = [] ↔ ¬ a.Bad := by
  obtain ⟨code,optarg⟩ := a
  cases code with
  | proc => exact List.map_eq_nil_iff.trans unknownFlags_eq_nil
  | file => exact List.map_eq_nil_iff.trans unknownFlags_eq_nil
  | error => exact iff_of_true rfl not_false

/-- One round of the option loop tells about its own argument. -/
theorem MainOptions.round_printed (o : MainOptions) (a : GetoptAnswer) :
    (o.round a).printed = o.printed ++ a.unknown.flatMap fun e => notAFlag e.1 e.2 := by
  obtain ⟨code,optarg⟩ := a
  cases code with
  | proc =>
    rw [GetoptAnswer.unknown, ← checkOptions_snd]
    simp [round, switch, OptionCode.value]
  | file =>
    rw [GetoptAnswer.unknown, ← checkOptions_snd]
    simp [round, switch, OptionCode.value]
  | error => simp [round, switch, OptionCode.value, GetoptAnswer.unknown]

theorem parsed_printed (answers : List GetoptAnswer) :
    (parsed answers).printed = errorLines answers := by
  induction answers using List.reverseRecOn with
  | nil => rfl
  | append_singleton answers a ih =>
    unfold parsed errorLines at *
    rw [List.foldl_append, List.foldl_cons, List.foldl_nil, MainOptions.round_printed, ih,
      List.flatMap_append, List.flatMap_append, List.flatMap_singleton]

/-- There is nothing to tell exactly when no argument is bad. -/
theorem errorLines_eq_nil {answers : List GetoptAnswer} :
    errorLines answers = [] ↔ ∀ a ∈ answers, ¬ a.Bad := by
  have hline : ∀ e : Text × Char, notAFlag e.1 e.2 ≠ [] := fun e =>
    List.ne_nil_of_mem (mem_notAFlag e.1 e.2)
  have hnil : errorLines answers = [] ↔ answers.flatMap GetoptAnswer.unknown = [] := by
    unfold errorLines
    cases answers.flatMap GetoptAnswer.unknown with
    | nil => simp
    | cons e l => simp [hline]
  rw [hnil, List.flatMap_eq_nil_iff]
  exact forall₂_congr fun a _ => GetoptAnswer.unknown_eq_nil

/-- Every run tells about all unknown flags of all arguments, in their order and before anything
else, and says nothing about arguments without one; a run whose last option has one, or that
has both readers off, prints this and no more. -/
theorem main_errorLines {answers : List GetoptAnswer} {n : ℕ} (hn : answers.length < n)
    (env : Surroundings) : ∃ r, main true env n answers = some r ∧
      (∀ t, r = .ok t → errorLines answers <+: t) ∧
      (errorLines answers = [] ↔ ∀ a ∈ answers, ¬ a.Bad) ∧
      (LastBad answers ∨ lastProc answers = NO ∧ lastFile answers = NO →
        r = .ok (errorLines answers)) := by
  refine ⟨_,main_eq hn env,?_,errorLines_eq_nil,?_⟩
  · intro t ht
    obtain ⟨b,_,ht⟩ := bind_eq_ok.mp ht
    obtain ⟨t',_,he⟩ := bind_eq_ok.mp ht
    cases he
    rw [parsed_printed, List.append_assoc]
    exact List.prefix_append _ _
  · intro h
    have hnil : (parsed answers).readersRun = [] := by
      rw [readersRun_eq]
      rcases h with hl | hboth
      · rw [if_neg fun hk => (parsed_flagsOkay answers).mp hk hl]
      · rw [requestedReaders, if_pos hboth, ite_self]
    rw [runReaders_nil hnil, parsed_printed]
    simp [Built.init, printFiles]

/-- Three unknown flags in two options. -/
theorem main_errorLines_three : ∃ r,
    main true oneRecord 3 [⟨.proc,"Zc!".toList⟩,⟨.file,"n?".toList⟩] = some r ∧
      (∀ t, r = .ok t → errorLines [⟨.proc,"Zc!".toList⟩,⟨.file,"n?".toList⟩] <+: t) ∧
      (errorLines [⟨.proc,"Zc!".toList⟩,⟨.file,"n?".toList⟩] = [] ↔
        ∀ a ∈ [⟨.proc,"Zc!".toList⟩,⟨.file,"n?".toList⟩], ¬ GetoptAnswer.Bad a) ∧
      (LastBad [⟨.proc,"Zc!".toList⟩,⟨.file,"n?".toList⟩] ∨
        lastProc [⟨.proc,"Zc!".toList⟩,⟨.file,"n?".toList⟩] = NO ∧
        lastFile [⟨.proc,"Zc!".toList⟩,⟨.file,"n?".toList⟩] = NO →
        r = .ok (errorLines [⟨.proc,"Zc!".toList⟩,⟨.file,"n?".toList⟩])) :=
  main_errorLines (by decide) oneRecord

end Cphf
