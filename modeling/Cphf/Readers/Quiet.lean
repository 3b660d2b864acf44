import Cphf.Readers.Isolation

/-! A snapshot in which the other processes leave no mark. With it a run reads a process from any
record that one likes to start with. -/
namespace Cphf
open CLib

/-- The path of a name under another process. -/
def ofOther (pid : UInt32) (name path : Text) : Bool :=
  let q := UInt32.ofNat (digitsValue (splitNumeral (path.drop 6)).2.1)
  q ≠ pid && path = procPath q name

theorem ofOther_iff {pid : UInt32} {name path : Text} :
    ofOther pid name path = true ↔ ∃ q ≠ pid, path = procPath q name := by
  simp only [ofOther, Bool.and_eq_true, decide_eq_true_eq]
  constructor
  · rintro ⟨hq,hp⟩
    exact ⟨_,hq,hp⟩
  · rintro ⟨q,hq,rfl⟩
    have hsplit : splitNumeral ((procPath q name).drop 6) = (false,decimal q.toNat,'/' :: name) :=
      splitNumeral_decimal q.toNat (s := '/' :: name) (by simp)
    have hn : UInt32.ofNat (digitsValue (splitNumeral ((procPath q name).drop 6)).2.1) = q := by
      rw [hsplit, digitsValue_decimal, UInt32.ofNat_toNat]
    rw [hn]
    exact ⟨hq,rfl⟩

/-- The system in which every other process has this stat file and this program, if any. -/
def System.withOthers (sys : System) (pid : UInt32) (line : Option Text) (program : Option Stat) :
    System :=
  { sys with
    file := fun path => if ofOther pid "stat".toList path then line else sys.file path
    stat := fun path => if ofOther pid "exe".toList path then program else sys.stat path }

/-- The system in which other processes leave no mark: each is skipped after an empty stat file,
or has none when the process itself has none. -/
def System.quiet (sys : System) (pid : UInt32) : System :=
  sys.withOthers pid ((sys.file (procPath pid "stat".toList)).map fun _ => []) none

section
variable (sys : System) {pid q : UInt32} (line : Option Text) (program : Option Stat)

theorem agreeFor_withOthers : AgreeFor pid sys (sys.withOthers pid line program) where
  file path hpath := by
    have hno : ¬ ofOther pid "stat".toList path = true := by
      rw [ofOther_iff]
      rintro ⟨q,hq,he⟩
      exact (hpath q hq).1 he
    exact (if_neg hno).symm
  stat path hpath := by
    have hno : ¬ ofOther pid "exe".toList path = true := by
      rw [ofOther_iff]
      rintro ⟨q,hq,he⟩
      exact hpath q hq he
    exact (if_neg hno).symm
  getpwuid := rfl
  getgrgid := rfl
  localtime := rfl
  time := rfl
  clkTck := rfl

theorem withOthers_file (h : q ≠ pid) :
    (sys.withOthers pid line program).file (procPath q "stat".toList) = line :=
  if_pos (ofOther_iff.mpr ⟨q,h,rfl⟩)

/-- With a stat file, another process has the program given. -/
theorem withOthers_exe {text : Text} (h : q ≠ pid) :
    (sys.withOthers pid (some text) program).stat
      (exePath (sys.withOthers pid (some text) program) q) = program := by
  unfold exePath
  rw [withOthers_file sys _ _ h, Option.isSome_some, if_pos rfl, List.nil_append]
  exact if_pos (ofOther_iff.mpr ⟨q,h,rfl⟩)

end

lemma converted_nil : converted statCalls [] = [] := by decide +kernel

namespace StatField
variable {f : StatField}

theorem same_storeAll_of_not_mem {l : List (StatField × Item)} (h : f ∉ l.map Prod.fst)
    (i : ProcInfo) : f.same (storeAll l i) i := by
  induction l generalizing i with
  | nil => cases f <;> rfl
  | cons e l ih =>
    rw [List.map_cons, List.mem_cons, not_or] at h
    have hstore : f.same (e.1.store e.2 i) i := by
      obtain ⟨g,x⟩ := e
      have hne := h.1
      cases f <;> cases g <;> first | rfl | contradiction
    exact same_trans (ih h.2 _) hstore

theorem same_afterOptions (f : StatField) (sys : System) (options : Text) (i : ProcInfo) :
    f.same (i.afterOptions sys options) i := by
  cases f <;> rfl

end StatField

section
variable {sys : System} {pid : UInt32}

/-- A member that the stat file does not give keeps what is stored in it before. -/
theorem forProcess_store {f : StatField} (hf : f ∉ givenMembers sys pid) (x : Item) (info : Stat)
    (i : ProcInfo) :
    (f.store x i).forProcess sys pid info = f.store x (i.forProcess sys pid info) := by
  unfold givenMembers at hf
  unfold ProcInfo.forProcess afterStatFile
  cases hfile : sys.file (procPath pid "stat".toList) with
  | none => cases f <;> rfl
  | some fin =>
    rw [hfile] at hf
    dsimp only at hf ⊢
    rw [storeAll_store hf]
    cases f <;> rfl

theorem forProcess_same_left (info : Stat) {f : StatField} {i j : ProcInfo} (h : f.same i j) :
    f.same (i.forProcess sys pid info) (j.forProcess sys pid info) := by
  unfold ProcInfo.forProcess afterStatFile
  cases sys.file (procPath pid "stat".toList) with
  | none => cases f <;> exact h
  | some fin =>
    have hs := StatField.same_storeAll (converted statCalls fin) (.inl h)
    cases f <;> exact hs

/-- A member that the stat file does not give is the one from before. -/
theorem forProcess_same_self (info : Stat) {f : StatField} (hf : f ∉ givenMembers sys pid)
    (i : ProcInfo) : f.same (i.forProcess sys pid info) i := by
  unfold givenMembers at hf
  unfold ProcInfo.forProcess afterStatFile
  cases hfile : sys.file (procPath pid "stat".toList) with
  | none => cases f <;> rfl
  | some fin =>
    rw [hfile] at hf
    have h := StatField.same_storeAll_of_not_mem hf i
    cases f <;> exact h

/-- Both lookups were made, whatever they found. -/
def ProcInfo.LooksKnown (i : ProcInfo) : Prop := i.pw ≠ none ∧ i.gr ≠ none

theorem forProcess_noFile (h : sys.file (procPath pid "stat".toList) = none) (info : Stat)
    (i : ProcInfo) : i.forProcess sys pid info = { i with info := info, pid := pid } := by
  unfold ProcInfo.forProcess afterStatFile
  rw [h]

theorem forProcess_opened {fin : Text} (h : sys.file (procPath pid "stat".toList) = some fin)
    (info : Stat) (i : ProcInfo) : i.forProcess sys pid info =
      { storeAll (converted statCalls fin) i with info := info, pid := pid, pw := none, gr := none } := by
  unfold ProcInfo.forProcess afterStatFile
  rw [h]

/-- Options that find both lookups made leave the record alone. -/
theorem ProcInfo.LooksKnown.afterOptions {i : ProcInfo} (h : i.LooksKnown) (options : Text) :
    i.afterOptions sys options = i := by
  obtain ⟨pw,hpw⟩ := Option.ne_none_iff_exists'.mp h.1
  obtain ⟨gr,hgr⟩ := Option.ne_none_iff_exists'.mp h.2
  refine ext_members (fun f => f.same_afterOptions sys options i) rfl rfl ?_ ?_
  · simp [ProcInfo.afterOptions, hpw]
  · simp [ProcInfo.afterOptions, hgr]

/-- Reading a process twice in a row gives the same record as reading it once. -/
theorem forProcess_again {sys' : System} (options : Text) (info : Stat) {i : ProcInfo}
    (h : sys.file (procPath pid "stat".toList) = none → i.LooksKnown) :
    ((i.forProcess sys pid info).afterOptions sys' options).forProcess sys pid info =
      i.forProcess sys pid info := by
  cases hfile : sys.file (procPath pid "stat".toList) with
  | none =>
    have hknown : (i.forProcess sys pid info).LooksKnown := by
      rw [forProcess_noFile hfile]
      exact h hfile
    rw [hknown.afterOptions, forProcess_noFile hfile, forProcess_noFile hfile]
  | some fin =>
    have hlooks := (@forProcess_same sys pid info
      ((i.forProcess sys pid info).afterOptions sys' options) i).2 (hfile ▸ Option.some_ne_none fin)
    refine ProcInfo.ext_members (fun f => ?_) rfl rfl hlooks.1 hlooks.2
    by_cases hf : f ∈ givenMembers sys pid
    · exact (forProcess_same info _ _).1 f hf
    · exact StatField.same_trans (forProcess_same_self info hf _) (f.same_afterOptions sys' options _)

end

section
variable {sys : System} {pid q : UInt32} {fin : Text} {i : ProcInfo}

lemma agreeFor_quiet (sys : System) : AgreeFor pid sys (sys.quiet pid) := agreeFor_withOthers sys _ _

lemma quiet_noFile (h : sys.file (procPath pid "stat".toList) = none) (q : UInt32) :
    (sys.quiet pid).file (procPath q "stat".toList) = none := by
  by_cases hq : q = pid
  · rw [hq, ← (agreeFor_quiet sys).own_file]
    exact h
  · have hfile := withOthers_file sys ((sys.file (procPath pid "stat".toList)).map fun _ => []) none hq
    rw [h] at hfile
    rwa [System.quiet, h]

lemma quiet_skips (h : sys.file (procPath pid "stat".toList) = some fin) (hq : q ≠ pid) :
    (sys.quiet pid).stat (exePath (sys.quiet pid) q) = none ∧
      afterStatFile (sys.quiet pid) q i = { i with pw := none, gr := none } := by
  unfold System.quiet
  rw [h]
  refine ⟨withOthers_exe sys none hq,?_⟩
  unfold afterStatFile
  rw [Option.map_some, withOthers_file sys _ none hq]
  dsimp only
  rw [converted_nil]
  rfl

/-- Where there is no stat file and the lookups were made, a process changes only the status and
the identifier. -/
lemma next_noFile {k : ℤ} (h : sys.file (procPath (asUInt32 k) "stat".toList) = none)
    (hi : i.LooksKnown) (options : Text) :
    ∃ info pid, i.next sys options k = { i with info := info, pid := pid } := by
  unfold ProcInfo.next
  cases sys.stat (exePath sys (asUInt32 k)) with
  | none =>
    unfold afterStatFile
    rw [h]
    exact ⟨i.info,i.pid,rfl⟩
  | some info =>
    have hknown : ({ i with info := info, pid := asUInt32 k } : ProcInfo).LooksKnown := hi
    dsimp only
    rw [forProcess_noFile h, hknown.afterOptions]
    exact ⟨_,_,rfl⟩

/-- Records that come to the same thing for a process. -/
def Carries (sys : System) (pid : UInt32) (info : Stat) (u i : ProcInfo) : Prop :=
  i.forProcess sys pid info = u.forProcess sys pid info

end

section
variable {sys : System} {options : Text} {procMap : ProcMap} {key : ℤ} {p : ProcFile} {pid : UInt32}
  {info : Stat} {u i : ProcInfo}

lemma Carries.known (h : Carries sys pid info u i)
    (hfile : sys.file (procPath pid "stat".toList) = none) (hu : u.LooksKnown) : i.LooksKnown := by
  unfold Carries at h
  rw [forProcess_noFile hfile, forProcess_noFile hfile] at h
  have hpw := congrArg ProcInfo.pw h
  have hgr := congrArg ProcInfo.gr h
  dsimp only at hpw hgr
  unfold ProcInfo.LooksKnown
  rwa [hpw, hgr]

/-- In the quiet system every process leaves the record as good for the one as it was. -/
theorem Carries.next (hinfo : sys.stat (exePath sys pid) = some info) (hu : u.LooksKnown)
    (h : Carries sys pid info u i) (options : Text) (k : ℤ) :
    Carries sys pid info u (i.next (sys.quiet pid) options k) := by
  have hagree : AgreeFor pid sys (sys.quiet pid) := agreeFor_quiet sys
  cases hfile : sys.file (procPath pid "stat".toList) with
  | none =>
    obtain ⟨info',pid',hnext⟩ := next_noFile (quiet_noFile hfile (asUInt32 k)) (h.known hfile hu)
      options
    unfold Carries at *
    rw [hnext, ← h, forProcess_noFile hfile, forProcess_noFile hfile]
  | some fin =>
    by_cases hk : asUInt32 k = pid
    · have hself : sys.file (procPath pid "stat".toList) = none → i.LooksKnown := fun hno => by
        rw [hfile] at hno
        cases hno
      unfold Carries ProcInfo.next
      rw [hk, ← hagree.exe, hinfo]
      dsimp only
      rw [← hagree.forProcess, forProcess_again options info hself]
      exact h
    · obtain ⟨hskip,hafter⟩ := @quiet_skips sys pid (asUInt32 k) fin i hfile hk
      have hcleared : ({ i with pw := none, gr := none } : ProcInfo).forProcess sys pid info =
          i.forProcess sys pid info := by
        unfold ProcInfo.forProcess afterStatFile
        rw [hfile]
        simp only [storeAll_lookups]
      unfold Carries ProcInfo.next
      rw [hskip]
      dsimp only
      rw [hafter, hcleared]
      exact h

lemma answered_of_starttime {j : ProcInfo} (hs : i.starttime = j.starttime)
    (h : ProcOption.startTime.answered sys j) : ProcOption.startTime.answered sys i := by
  unfold ProcOption.answered at h ⊢
  rwa [hs]

lemma answered_of_known {j : ProcInfo} {o : ProcOption} (hi : i.LooksKnown)
    (hs : i.starttime = j.starttime) (h : o.answered sys j) : o.answered sys i := by
  cases o with
  | username | uid => exact .inl hi.1
  | ugidName | ugid => exact .inl hi.2
  | startTime => exact answered_of_starttime hs h
  | command | ppid | procgid | cpuTime | state | device | vms | rms | memText | memData | memStack
  | instPtr | perms => exact h

/-- With such a record no other process ends the run there. -/
theorem Carries.answeredFor (hinfo : sys.stat (exePath sys pid) = some info) (hu : u.LooksKnown)
    (h : Carries sys pid info u i)
    (hneeds : ∀ o : ProcOption, o.char ∈ options → o.answered sys (u.forProcess sys pid info))
    (k : ℤ) : i.answeredFor (sys.quiet pid) options k := by
  have hagree : AgreeFor pid sys (sys.quiet pid) := agreeFor_quiet sys
  intro info' hinfo' o ho
  rw [← hagree.answered]
  have hown := hneeds o ho
  rw [← h] at hown
  cases hfile : sys.file (procPath pid "stat".toList) with
  | none =>
    rw [forProcess_noFile (quiet_noFile hfile _)]
    rw [forProcess_noFile hfile] at hown
    have hknown : ({ i with info := info', pid := asUInt32 k } : ProcInfo).LooksKnown :=
      h.known hfile hu
    refine answered_of_known hknown ?_ hown
    rfl
  | some fin =>
    by_cases hk : asUInt32 k = pid
    · rw [hk, ← hagree.exe, hinfo] at hinfo'
      cases hinfo'
      rw [hk, ← hagree.forProcess]
      exact hown
    · rw [(@quiet_skips sys pid (asUInt32 k) fin i hfile hk).1] at hinfo'
      cases hinfo'

variable (hp : procMap.find? key = some p) (hinfo : sys.stat (exePath sys (asUInt32 key)) = some info)
  (hu : u.LooksKnown)
include hp hinfo hu

/-- A run of the quiet system reads the process from the record it began with. -/
theorem quiet_run {r : Text × ProcMap}
    (hr : ProcReader.do_read (sys.quiet (asUInt32 key)) u options procMap = .ok r) :
    ∃ funcs, gather (ProcReader.entry sys (u.forProcess sys (asUInt32 key) info)) ∅ options =
        .ok funcs ∧ r.2.find? key = some (p.addAttributes funcs.entries) := by
  have hagree : AgreeFor (asUInt32 key) sys (sys.quiet (asUInt32 key)) := agreeFor_quiet sys
  obtain ⟨q,hq,_⟩ := ProcReader.do_read_process hr hp
  obtain ⟨⟨st,m⟩,ht,he⟩ := bind_eq_ok.mp hr
  cases he
  have hstart : Carries sys (asUInt32 key) info u (ProcLoop.mk u []).info := rfl
  have hall := (OMap.traverse_invariant
    (I := fun st : ProcLoop => Carries sys (asUInt32 key) info u st.info)
    (Q := fun k w => k = key → ∃ funcs, gather (ProcReader.entry sys
      (u.forProcess sys (asUInt32 key) info)) ∅ options = .ok funcs ∧
        w = p.addAttributes funcs.entries)
    (fun s t k v w hv hI hs => ⟨?_,fun hk => ?_⟩) hstart ht).2 key q hq rfl
  · obtain ⟨funcs,hg,rfl⟩ := hall
    exact ⟨funcs,hg,hq⟩
  · rw [ProcReader.visit_next hs]
    exact hI.next hinfo hu options k
  · subst hk
    cases hv.symm.trans hp
    rcases ProcReader.visit_eq_ok hs with ⟨hnone,_⟩ | ⟨info',funcs,hsome,hg,rfl⟩
    · rw [← hagree.exe, hinfo] at hnone
      cases hnone
    · rw [← hagree.exe, hinfo] at hsome
      cases hsome
      rw [← hagree.forProcess, hI, ← hagree.entry rfl] at hg
      exact ⟨funcs,hg,rfl⟩

/-- It reports what the options gather from that record, if they all have an answer. -/
theorem reported_quiet (hoptions : ∀ c ∈ options, c ∈ PROC_OPTS_DEFAULT) {l : List CphfAttribute} :
    reported (sys.quiet (asUInt32 key)) options procMap key u = some l ↔ ∃ funcs,
      gather (ProcReader.entry sys (u.forProcess sys (asUInt32 key) info)) ∅ options = .ok funcs ∧
        (p.addAttributes funcs.entries).attributes = l := by
  constructor
  · intro h
    obtain ⟨r,q,hr,hq,hl⟩ := reported_eq_some h
    obtain ⟨funcs,hg,hq'⟩ := quiet_run hp hinfo hu hr
    cases hq.symm.trans hq'
    exact ⟨funcs,hg,hl⟩
  · rintro ⟨funcs,hg,hl⟩
    have hneeds := (ProcReader.gather_completes_iff hoptions).mp ⟨_,hg⟩
    have hcompletes : Completes (ProcReader.do_read (sys.quiet (asUInt32 key)) u options procMap) := by
      rw [ProcReader.do_read_completes_iff hoptions]
      exact visits_of_invariant (I := Carries sys (asUInt32 key) info u)
        (fun i e _ hi => hi.answeredFor hinfo hu hneeds e.1)
        (fun i e _ hi => hi.next hinfo hu options e.1) rfl
    obtain ⟨r,hr⟩ := hcompletes
    obtain ⟨funcs',hg',hq⟩ := quiet_run hp hinfo hu hr
    cases hg.symm.trans hg'
    rw [reported_of_ok hr, hq, Option.map_some, hl]

end

end Cphf
