import Cphf.EndToEnd
import Cphf.OptionErrors
import Cphf.Readers.Complaints

/-! What the program computes. When every process that was listed is either described by the
kernel in full or gone, all that is printed is the listing, each entry told from what the system
says about it alone. -/
namespace Cphf
open CLib

/-- A process has a complete stat file, or there is nothing to read about it. -/
def Settled (sys : System) (pid : UInt32) : Prop :=
  sys.file (procPath pid "stat".toList) ≠ none ∧ ¬ Incomplete sys pid ∨
    sys.file (procPath pid "stat".toList) = none ∧ sys.stat (exePath sys pid) = none

/-- What there is to read about a process, whatever the record held before. -/
def procReport (sys : System) (options : Text) (pid : UInt32) : List CphfAttribute :=
  match sys.stat (exePath sys pid) with
  | none => []
  | some info =>
    match gather (ProcReader.entry sys ((default : ProcInfo).forProcess sys pid info)) ∅ options with
    | .error _ => []
    | .ok funcs => funcs.entries

/-- The entry of a process: its number, and what there is to read about it. -/
def ownReport (sys : System) (options : Text) (P : LsofProc) : List CphfAttribute :=
  arranged .cmd [(.pid,decimal P.pid)] (procReport sys options (asUInt32 P.pid.val))

/-- The part of the report about one process. -/
def blockReport (sys : System) (proc_ops file_ops : Text) (P : LsofProc) : List Entry :=
  (if proc_ops = NO then [] else [⟨true,ownReport sys proc_ops P⟩]) ++
    if file_ops = NO then []
    else P.listing.map fun path => ⟨false,fileReport sys file_ops path⟩

/-- The report about the processes that were listed. -/
def report (sys : System) (proc_ops file_ops : Text) (ps : List LsofProc) : List Entry :=
  (inOrder ps).flatMap (blockReport sys proc_ops file_ops)

section
variable {sys : System} {pid : UInt32}

/-- A complete stat file leaves nothing of what the record held before. -/
theorem forProcess_complete (hfile : sys.file (procPath pid "stat".toList) ≠ none)
    (hcomplete : ¬ Incomplete sys pid) (info : Stat) (i j : ProcInfo) :
    i.forProcess sys pid info = j.forProcess sys pid info := by
  obtain ⟨hsame,hlookups⟩ := @forProcess_same sys pid info i j
  obtain ⟨hpw,hgr⟩ := hlookups hfile
  apply ProcInfo.ext_members (fun f => hsame f ?_) rfl rfl hpw hgr
  by_contra hf
  exact hcomplete ⟨hfile,f,mem_statFields f,hf⟩

theorem Settled.statMessage (h : Settled sys pid) : statMessage sys pid = [] := by
  rw [statMessage_eq, if_neg]
  rcases h with ⟨_,hcomplete⟩ | ⟨hfile,_⟩
  · exact hcomplete
  · exact fun hinc => hinc.1 hfile

theorem ProcReader.visit_report {options : Text} {st st' : ProcLoop} {key : ℤ} {p q : ProcFile}
    (h : Settled sys (asUInt32 key)) (hv : visit sys options st key p = .ok (st',q)) :
    q.attributes = arranged .cmd p.attributes (procReport sys options (asUInt32 key)) := by
  rcases visit_eq_ok hv with ⟨hs,rfl⟩ | ⟨info,funcs,hs,hg,rfl⟩
  · simp [procReport, hs, arranged]
  · rcases h with ⟨hfile,hcomplete⟩ | ⟨_,hnone⟩
    · rw [forProcess_complete hfile hcomplete info _ default] at hg
      rw [ProcFile.addAttributes_attributes]
      simp only [procReport, hs, hg]
    · rw [hs] at hnone
      cases hnone

end

/-- A process stored as listed, with what there is to read about it if that was asked for. -/
structure ProcTold (sys : System) (T : UInt64) (proc_ops : Text) (e : ℤ × ProcFile)
    (P : LsofProc) : Prop extends ProcShows T e P where
  own : proc_ops ≠ NO → e.2.attributes = ownReport sys proc_ops P

/-- A process as it is told in the end. -/
structure Told (sys : System) (o : MainOptions) (e : ℤ × ProcFile) (P : LsofProc) : Prop where
  own : o.proc_ops ≠ NO → e.2.attributes = ownReport sys o.proc_ops P
  files : o.file_ops ≠ NO → FilesShow sys o.file_ops e P

section
variable {env : Surroundings} {o : MainOptions} {b b' : Built} {ps : List LsofProc}

theorem Built.dig_listed {rs : List Record} {ops : Text} (hps : Listable env.ULF_TXT_FD ps)
    (hrs : rs.filter Record.known = setRecords (ps.map LsofProc.set))
    (hlsof : env.lsof = .output (lines rs)) (h : init.dig env (.lsof,ops) = .ok b) :
    b.printed = [] ∧ b.procMap.entries.Forall₂ (Listed env.ULF_TXT_FD) (inOrder ps) := by
  obtain ⟨m,hm,hlisted⟩ := bufferedRead_listed hps hrs
  obtain ⟨r,hr,he⟩ := bind_eq_ok.mp h
  cases he
  rw [hlsof] at hr
  obtain ⟨m',hm',he⟩ := map_eq_ok.mp hr
  cases hm.symm.trans hm'
  cases he
  exact ⟨rfl,hlisted⟩

/-- Reading the processes prints nothing and finds what there is to read about each. -/
theorem Built.digUnless_proc_told
    (hlisted : b.procMap.entries.Forall₂ (Listed env.ULF_TXT_FD) ps)
    (hsettled : o.proc_ops ≠ NO → ∀ P ∈ ps, Settled env.sys (asUInt32 P.pid.val))
    (h : b.digUnless env .proc o.proc_ops = .ok b') : b'.printed = b.printed ∧
      b'.procMap.entries.Forall₂ (ProcTold env.sys env.ULF_TXT_FD o.proc_ops) ps := by
  unfold digUnless at h
  split_ifs at h with hp
  · cases h
    exact ⟨rfl,hlisted.imp fun _ _ hl => ⟨hl.procShows,fun hne => absurd hp hne⟩⟩
  · obtain ⟨⟨out,m'⟩,hr,he⟩ := bind_eq_ok.mp h
    cases he
    have hall : b.procMap.entries.Forall₂
        (fun e P => Settled env.sys (asUInt32 P.pid.val) ∧ Listed env.ULF_TXT_FD e P) ps :=
      ((List.forall₂_and_left _ _).mpr ⟨hsettled hp,hlisted.flip⟩).flip
    constructor
    · suffices hout : out = [] by rw [hout, List.append_nil]
      rw [ProcReader.do_read_printed hr, List.flatMap_eq_nil_iff]
      intro e he
      obtain ⟨P,_,hP,hl⟩ := exists_of_forall₂ hall he
      rw [hl.key]
      exact hP.statMessage
    · obtain ⟨⟨st,m₁⟩,ht,he⟩ := bind_eq_ok.mp hr
      cases he
      apply forall₂_join (forall₂_traverse (OMap.traverse_ok.mp ht)) hall
      rintro ⟨k,p⟩ ⟨k',q⟩ P ⟨hk,s,t,hv⟩ ⟨hP,hl⟩
      cases hk
      refine ⟨ProcReader.visit_shows hl.procShows hv,fun _ => ?_⟩
      have hkey : k = P.pid.val := hl.key
      have hattributes : p.attributes = [(.pid,decimal P.pid)] := hl.attributes
      subst hkey
      rw [ownReport, ← hattributes]
      exact ProcReader.visit_report hP hv

/-- Reading the files leaves what was read about the processes. -/
theorem Built.digUnless_filestat_told
    (htold : b.procMap.entries.Forall₂ (ProcTold env.sys env.ULF_TXT_FD o.proc_ops) ps)
    (h : b.digUnless env .filestat o.file_ops = .ok b') :
    b'.printed = b.printed ∧ b'.procMap.entries.Forall₂ (Told env.sys o) ps := by
  unfold digUnless at h
  split_ifs at h with hf
  · cases h
    exact ⟨rfl,htold.imp fun _ _ ht => ⟨ht.own,fun hne => absurd hf hne⟩⟩
  · obtain ⟨m,hr,he⟩ := bind_eq_ok.mp h
    cases he
    obtain ⟨⟨_,m₁⟩,ht,he⟩ := bind_eq_ok.mp hr
    cases he
    refine ⟨rfl,forall₂_join (forall₂_traverse (OMap.traverse_ok.mp ht)) htold ?_⟩
    rintro ⟨k,p⟩ ⟨k',q⟩ P ⟨hk,_,_,hv⟩ hp
    cases hk
    obtain ⟨q',hadd,he⟩ := map_eq_ok.mp hv
    cases he
    obtain ⟨hfiles,hattributes⟩ := ProcFile.addFileAttributes_shows hp.toProcShows hadd
    exact ⟨fun hne => hattributes.trans (hp.own hne),fun _ => hfiles⟩

/-- The queue of processes that are told in the end. -/
theorem flattenMap_told {m : ProcMap} (h : m.entries.Forall₂ (Told env.sys o) ps) :
    (flattenMap m (o.proc_ops ≠ NO) (o.file_ops ≠ NO)).map CphfFile.entry =
      ps.flatMap (blockReport env.sys o.proc_ops o.file_ops) := by
  rw [flattenMap, List.map_flatMap, List.flatMap_def, List.flatMap_def]
  congr 1
  apply map_eq_of_forall₂ h
  intro e P ht
  rw [entries_of_shows ht.files, blockReport]
  congr 1
  split_ifs with hp
  · rfl
  · rw [ht.own hp]

end

/-- When each process that was listed has a complete stat file or is gone, and the options are
known, then whatever the record held and in whatever order the listing came: a run that gets to
its end prints the report and nothing else. -/
theorem main_report {env : Surroundings} {ps : List LsofProc} (hps : Listable env.ULF_TXT_FD ps)
    {rs : List Record} (hrs : rs.filter Record.known = setRecords (ps.map LsofProc.set))
    (hlsof : env.lsof = .output (lines rs)) {answers : List GetoptAnswer}
    (hgood : ∀ a ∈ answers, ¬ a.Bad)
    (hsettled : lastProc answers ≠ NO → ∀ P ∈ ps, Settled env.sys (asUInt32 P.pid.val))
    {n : ℕ} {out : Text} (h : main true env n answers = some (.ok out)) :
    out = (report env.sys (lastProc answers) (lastFile answers) ps).flatMap Entry.text := by
  have hn : answers.length < n := by
    by_contra hle
    unfold main at h
    rw [optionLoop_signed_eq_none (Nat.le_of_not_lt hle)] at h
    cases h
  rw [main_eq hn] at h
  obtain ⟨r,hr,h⟩ := bind_eq_ok.mp (Option.some.inj h)
  obtain ⟨t,ht,he⟩ := bind_eq_ok.mp h
  cases he
  rw [runReaders_text hr] at ht
  cases ht
  rw [parsed_printed, errorLines_eq_nil.mpr hgood, List.nil_append]
  by_cases hno : lastProc answers = NO ∧ lastFile answers = NO
  · have hrun := readersRun_eq answers
    rw [requestedReaders, if_pos hno, ite_self] at hrun
    cases hr.symm.trans (runReaders_nil hrun env)
    have hblock : blockReport env.sys NO NO = fun _ => [] := by
      funext P
      simp [blockReport]
    rw [report, hno.1, hno.2, hblock]
    simp [Built.init]
  · have hok : (parsed answers).flagsOkay = true := by
      rw [parsed_flagsOkay]
      rintro ⟨a,ha,hbad⟩
      exact hgood a (List.mem_filter.mp (List.mem_of_getLast? ha)).1 hbad
    rw [← parsed_proc_ops, ← parsed_file_ops] at hno
    rw [← parsed_proc_ops] at hsettled
    obtain ⟨b₀,b₁,b₂,h₀,h₁,h₂,rfl⟩ := runReaders_stages hok hno hr
    obtain ⟨hprinted₀,hlisted⟩ := Built.dig_listed hps hrs hlsof h₀
    obtain ⟨hprinted₁,htold⟩ := Built.digUnless_proc_told hlisted
      (fun hp P hP => hsettled hp P (List.mem_mergeSort.mp hP)) h₁
    obtain ⟨hprinted₂,hall⟩ := Built.digUnless_filestat_told htold h₂
    rw [hprinted₂, hprinted₁, hprinted₀, List.nil_append, flattenMap_told hall, report,
      parsed_proc_ops, parsed_file_ops]

/-- One of two processes is described in full, the other one is gone. -/
def oneLeft : Surroundings where
  rlim_max := some 1024
  lsof := .output (lines twoProcsRecords)
  sys :=
    { answering with
      file := fun path => if path = procPath 7 "stat".toList then
        some ("7 (sh) S".toList ++ (List.replicate 48 " 1".toList).flatten) else none
      stat := fun path => if "/proc/7/".toList.isPrefixOf path then some default else none }
  fresh := default

theorem main_report_two : ∃ out, main true oneLeft 1 [] = some (.ok out) ∧
    out = (report oneLeft.sys PROC_OPTS_DEFAULT FILESTAT_OPTS_DEFAULT twoProcs).flatMap
      Entry.text := by
  have hrun : Option.map (fun r => (fun _ => ()) <$> r) (main true oneLeft 1 []) =
      some (.ok ()) := by
    decide +kernel
  obtain ⟨r,hr,hok⟩ := Option.map_eq_some_iff.mp hrun
  obtain ⟨out,rfl,_⟩ := map_eq_ok.mp hok
  have hlistable : Listable oneLeft.ULF_TXT_FD twoProcs := twoProcs_listable
  refine ⟨out,hr,main_report hlistable twoProcsRecords_known rfl (fun _ ha => by cases ha) ?_ hr⟩
  intro _ P hP
  fin_cases hP
  · exact .inl ⟨by decide +kernel,by decide +kernel⟩
  · exact .inr ⟨by decide +kernel,by decide +kernel⟩

end Cphf
