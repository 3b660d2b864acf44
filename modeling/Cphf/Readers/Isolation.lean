import Cphf.Readers.Members
import Cphf.Readers.NullSafety

/-! Whether what is reported about a process can come from another one. One record serves all
processes, so a member that a process's own stat file does not give keeps the value an earlier
process left in it, or the one that stood there from the start; and the run is over for all of
them when one has no answer to an option. -/
namespace Cphf
open CLib

/-- The members an option reads. -/
def ProcOption.members : ProcOption → List StatField
  | ppid => [.ppid] | procgid => [.procgid] | startTime => [.starttime]
  | cpuTime => [.pstime,.putime] | state => [.state] | vms => [.vms] | rms => [.rss]
  | memText => [.textbegin,.textend] | memData => [.databegin,.dataend]
  | memStack => [.stackbegin,.esp] | instPtr => [.epi]
  | command | username | uid | ugidName | ugid | device | perms => []

/-- The options that render a lookup. -/
def ProcOption.looksUp : ProcOption → Bool
  | username | uid | ugidName | ugid => true
  | _ => false

/-- Besides these members an option depends on the status, the identifier and its lookup. -/
theorem ProcOption.text_congr (sys : System) {i j : ProcInfo} (o : ProcOption)
    (h : ∀ f ∈ o.members, f.same i j) (hinfo : i.info = j.info) (hpid : i.pid = j.pid)
    (hl : o.looksUp = true → i.pw = j.pw ∧ i.gr = j.gr) : o.text sys i = o.text sys j := by
  cases o <;> simp only [members, List.forall_mem_cons, List.not_mem_nil, false_imp_iff,
    implies_true, and_true, StatField.same] at h
  case command => rw [text_command, text_command, hpid]
  case ppid => rw [text_ppid, text_ppid, h]
  case procgid => rw [text_procgid, text_procgid, h]
  case username => rw [text_username, text_username, (hl rfl).1, hinfo]
  case uid => rw [text_uid, text_uid, (hl rfl).1, hinfo]
  case ugidName => rw [text_ugidName, text_ugidName, (hl rfl).2, hinfo]
  case ugid => rw [text_ugid, text_ugid, (hl rfl).2, hinfo]
  case startTime => rw [text_startTime, text_startTime, h]
  case cpuTime => rw [text_cpuTime, text_cpuTime, h.1, h.2]
  case state => rw [text_state, text_state, h]
  case device => rw [text_device, text_device, hinfo]
  case vms => rw [text_vms, text_vms, h]
  case rms => rw [text_rms, text_rms, h]
  case memText => rw [text_memText, text_memText, h.1, h.2]
  case memData => rw [text_memData, text_memData, h.1, h.2]
  case memStack => rw [text_memStack, text_memStack, h.1, h.2]
  case instPtr => rw [text_instPtr, text_instPtr, h]
  case perms => rw [text_perms, text_perms, hinfo]

lemma procPath_split {path name : Text} {pid : UInt32}
    (h : "/proc/".toList ++ path = procPath pid name) :
    splitNumeral path = (false,decimal pid.toNat,'/' :: name) := by
  unfold procPath at h
  rw [List.append_assoc, List.append_cancel_left_eq] at h
  rw [h]
  exact splitNumeral_decimal _ (by simp)

theorem procPath_inj {p q : UInt32} {n m : Text} (h : procPath p n = procPath q m) :
    p = q ∧ n = m := by
  have hp : splitNumeral (decimal p.toNat ++ '/' :: n) = (false,decimal p.toNat,'/' :: n) :=
    procPath_split (List.append_assoc _ _ _).symm
  have hq : splitNumeral (decimal p.toNat ++ '/' :: n) = (false,decimal q.toNat,'/' :: m) :=
    procPath_split ((List.append_assoc _ _ _).symm.trans h)
  rw [hp] at hq
  simp only [Prod.mk.injEq, List.cons.injEq, true_and] at hq
  exact ⟨UInt32.toNat_inj.mp (decimal_injective hq.1),hq.2⟩

/-- A path that does not go on with a number is none of a process. -/
theorem procPath_ne {path : Text} (h : (splitNumeral path).2.1 = []) (pid : UInt32) (name : Text) :
    "/proc/".toList ++ path ≠ procPath pid name := by
  intro he
  rw [procPath_split he] at h
  exact decimal_ne_nil _ h

/-- Two snapshots agree on what belongs to a process and on what belongs to none: they may
differ in the stat files, command lines and programs of other processes. -/
structure AgreeFor (pid : UInt32) (sys sys' : System) : Prop where
  file : ∀ path, (∀ q ≠ pid, path ≠ procPath q "stat".toList ∧ path ≠ procPath q "cmdline".toList) →
    sys.file path = sys'.file path
  stat : ∀ path, (∀ q ≠ pid, path ≠ procPath q "exe".toList) → sys.stat path = sys'.stat path
  getpwuid : sys.getpwuid = sys'.getpwuid
  getgrgid : sys.getgrgid = sys'.getgrgid
  localtime : sys.localtime = sys'.localtime
  time : sys.time = sys'.time
  clkTck : sys.clkTck = sys'.clkTck

namespace AgreeFor
variable {pid : UInt32} {sys sys' : System}

theorem refl (sys : System) : AgreeFor pid sys sys :=
  ⟨fun _ _ => rfl,fun _ _ => rfl,rfl,rfl,rfl,rfl,rfl⟩

theorem own_file (h : AgreeFor pid sys sys') (name : Text) :
    sys.file (procPath pid name) = sys'.file (procPath pid name) :=
  h.file _ fun _ hq => ⟨fun he => hq (procPath_inj he).1.symm,fun he => hq (procPath_inj he).1.symm⟩

theorem common_file (h : AgreeFor pid sys sys') {path : Text}
    (hp : (splitNumeral path).2.1 = []) :
    sys.file ("/proc/".toList ++ path) = sys'.file ("/proc/".toList ++ path) :=
  h.file _ fun q _ => ⟨procPath_ne hp q _,procPath_ne hp q _⟩

theorem exePath (h : AgreeFor pid sys sys') : exePath sys pid = exePath sys' pid := by
  unfold Cphf.exePath
  rw [h.own_file]

/-- The status that decides whether the process is read. -/
theorem exe (h : AgreeFor pid sys sys') :
    sys.stat (Cphf.exePath sys pid) = sys'.stat (Cphf.exePath sys' pid) := by
  rw [← h.exePath]
  apply h.stat _
  intro q hq
  unfold Cphf.exePath
  split
  · rw [List.nil_append]
    exact fun he => hq (procPath_inj he).1.symm
  · intro he
    have hhead : some 'E' = some '/' := congrArg List.head? he
    simp at hhead

theorem timeSinceBoot (h : AgreeFor pid sys sys') : timeSinceBoot sys = timeSinceBoot sys' := by
  have hf : sys.file "/proc/uptime".toList = sys'.file "/proc/uptime".toList :=
    @common_file _ _ _ h "uptime".toList rfl
  rw [Cphf.timeSinceBoot, hf]
  rfl

theorem readDevice (h : AgreeFor pid sys sys') (info : Stat) :
    readDevice sys info = readDevice sys' info := by
  have hf : sys.file "/proc/tty/drivers".toList = sys'.file "/proc/tty/drivers".toList :=
    @common_file _ _ _ h "tty/drivers".toList rfl
  have hm : buildDeviceMap sys = buildDeviceMap sys' := by
    rw [buildDeviceMap, hf]
    rfl
  rw [Cphf.readDevice, hm]
  rfl

/-- An option gives both snapshots' runs the same text of one record. -/
theorem text (h : AgreeFor pid sys sys') {i : ProcInfo} (hpid : i.pid = pid) (o : ProcOption) :
    o.text sys i = o.text sys' i := by
  cases o with
  | command =>
    rw [ProcOption.text_command, ProcOption.text_command, hpid]
    unfold readCMD
    rw [h.own_file]
  | username => rw [ProcOption.text_username, ProcOption.text_username, h.getpwuid]
  | uid => rw [ProcOption.text_uid, ProcOption.text_uid, h.getpwuid]
  | ugidName => rw [ProcOption.text_ugidName, ProcOption.text_ugidName, h.getgrgid]
  | ugid => rw [ProcOption.text_ugid, ProcOption.text_ugid, h.getgrgid]
  | startTime =>
    rw [ProcOption.text_startTime, ProcOption.text_startTime]
    unfold readStartTime readLocalTime
    rw [h.timeSinceBoot, h.localtime, h.time, h.clkTck]
  | cpuTime =>
    rw [ProcOption.text_cpuTime, ProcOption.text_cpuTime]
    unfold readETime
    rw [h.clkTck]
  | device => rw [ProcOption.text_device, ProcOption.text_device, h.readDevice]
  | ppid | procgid | state | vms | rms | memText | memData | memStack | instPtr | perms => rfl

theorem entry (h : AgreeFor pid sys sys') {i : ProcInfo} (hpid : i.pid = pid) :
    ProcReader.entry sys i = ProcReader.entry sys' i := by
  funext c
  unfold ProcReader.entry
  cases ProcOption.ofChar c with
  | none => rfl
  | some o => simp only [h.text hpid o]

theorem forProcess (h : AgreeFor pid sys sys') (info : Stat) (i : ProcInfo) :
    i.forProcess sys pid info = i.forProcess sys' pid info := by
  unfold ProcInfo.forProcess afterStatFile
  rw [h.own_file]

/-- What an option needs is answered alike, by whatever record. -/
theorem answered (h : AgreeFor pid sys sys') (i : ProcInfo) (o : ProcOption) :
    o.answered sys i ↔ o.answered sys' i := by
  cases o with
  | username | uid => simp only [ProcOption.answered, h.getpwuid]
  | ugidName | ugid => simp only [ProcOption.answered, h.getgrgid]
  | startTime =>
    simp only [ProcOption.answered, startSeconds]
    rw [h.timeSinceBoot, h.localtime, h.time, h.clkTck]
  | device =>
    have hf : sys.file "/proc/tty/drivers".toList = sys'.file "/proc/tty/drivers".toList :=
      @common_file _ _ _ h "tty/drivers".toList rfl
    simp only [ProcOption.answered, System.driversNamed]
    rw [hf]
  | command | ppid | procgid | cpuTime | state | vms | rms | memText | memData | memStack
  | instPtr | perms => exact Iff.rfl

end AgreeFor

/-- The members that a process's own stat file gives. -/
def givenMembers (sys : System) (pid : UInt32) : List StatField :=
  match sys.file (procPath pid "stat".toList) with
  | none => []
  | some fin => (converted statCalls fin).map Prod.fst

/-- Start times are all rendered alike. -/
def StartTimeSteady (sys : System) : Prop :=
  ∀ v w : UInt64, readStartTime sys (asLong v.toNat) CPHF_FORMAT_DATE_TIME =
    readStartTime sys (asLong w.toNat) CPHF_FORMAT_DATE_TIME

/-- Everything an option reads belongs to the process. -/
def ProcOption.own (sys : System) (pid : UInt32) (o : ProcOption) : Prop :=
  ((∀ f ∈ o.members, f ∈ givenMembers sys pid) ∨ o = .startTime ∧ StartTimeSteady sys) ∧
    (o.looksUp = true → sys.file (procPath pid "stat".toList) ≠ none)

section
variable (sys : System) (options : Text) (procMap : ProcMap) (key : ℤ)

/-- The process itself ends every run: it has no answer to an option, whatever the record before
it was. -/
def Stopped : Prop :=
  ∃ info, sys.stat (exePath sys (asUInt32 key)) = some info ∧
    ∃ o : ProcOption, o.char ∈ options ∧
      ∀ i : ProcInfo, ¬ o.answered sys (i.forProcess sys (asUInt32 key) info)

/-- No other process ends a run: there is none, or there is an answer to every option whatever
another one's record holds. -/
def OthersAnswered : Prop :=
  (∀ k p, procMap.find? k = some p → k = key) ∨
    ∀ o : ProcOption, o.char ∈ options → ∀ i, o.answered sys i

/-- The process is skipped, or all that its options read is its own. -/
def OwnReads : Prop :=
  sys.stat (exePath sys (asUInt32 key)) = none ∨
    ∀ o : ProcOption, o.char ∈ options → o.own sys (asUInt32 key)

/-- What a run reports about a process; nothing when it does not get through. -/
def reported (fresh : ProcInfo) : Option (List CphfAttribute) :=
  match ProcReader.do_read sys fresh options procMap with
  | .ok r => (r.2.find? key).map ProcFile.attributes
  | .error _ => none

/-- The same is reported about a process, if anything is, whatever the snapshot has of other
processes and whatever stands in the record at the start. -/
def Isolated : Prop :=
  ∀ sys', AgreeFor (asUInt32 key) sys sys' → ∀ fresh fresh',
    reported sys options procMap key fresh = reported sys' options procMap key fresh'

/-- Every such run gets through, with this list. -/
def ReportedAs (l : List CphfAttribute) : Prop :=
  ∀ sys', AgreeFor (asUInt32 key) sys sys' → ∀ fresh,
    reported sys' options procMap key fresh = some l

end

section
variable {sys sys' : System} {options : Text} {procMap : ProcMap} {key : ℤ} {fresh : ProcInfo}

theorem reported_of_ok {r : Text × ProcMap}
    (h : ProcReader.do_read sys fresh options procMap = .ok r) :
    reported sys options procMap key fresh = (r.2.find? key).map ProcFile.attributes := by
  rw [reported, h]

theorem reported_eq_some {l : List CphfAttribute}
    (h : reported sys options procMap key fresh = some l) : ∃ r q,
      ProcReader.do_read sys fresh options procMap = .ok r ∧ r.2.find? key = some q ∧
        q.attributes = l := by
  unfold reported at h
  cases hr : ProcReader.do_read sys fresh options procMap with
  | error e =>
    rw [hr] at h
    cases h
  | ok r =>
    rw [hr] at h
    obtain ⟨q,hq,hl⟩ := Option.map_eq_some_iff.mp h
    exact ⟨r,q,rfl,hq,hl⟩

/-- Whatever the records before were, the members that the stat file gives are the same after
it, and so are the lookups when there is such a file. -/
theorem forProcess_same {pid : UInt32} (info : Stat) (i j : ProcInfo) :
    (∀ f ∈ givenMembers sys pid,
      f.same (i.forProcess sys pid info) (j.forProcess sys pid info)) ∧
    (sys.file (procPath pid "stat".toList) ≠ none →
      (i.forProcess sys pid info).pw = (j.forProcess sys pid info).pw ∧
      (i.forProcess sys pid info).gr = (j.forProcess sys pid info).gr) := by
  unfold givenMembers ProcInfo.forProcess afterStatFile
  cases sys.file (procPath pid "stat".toList) with
  | none => simp
  | some fin =>
    refine ⟨fun f hf => ?_,fun _ => ⟨rfl,rfl⟩⟩
    have h := StatField.same_storeAll (i := i) (j := j) _ (.inr hf)
    cases f <;> exact h

/-- An option that reads only what is the process's own has one outcome. -/
theorem ProcOption.own_text {pid : UInt32} {o : ProcOption} (h : o.own sys pid) (info : Stat)
    (i j : ProcInfo) :
    o.text sys (i.forProcess sys pid info) = o.text sys (j.forProcess sys pid info) := by
  obtain ⟨hmembers,hl⟩ := h
  obtain ⟨hsame,hlooked⟩ := @forProcess_same sys pid info i j
  rcases hmembers with hmembers | ⟨rfl,hsteady⟩
  · exact o.text_congr sys (fun f hf => hsame f (hmembers f hf)) rfl rfl fun hup => hlooked (hl hup)
  · rw [text_startTime, text_startTime]
    exact hsteady _ _

/-- What two runs that get through report about a process that reads its own. -/
theorem OwnReads.attributes_eq (h : OwnReads sys options key)
    (hagree : AgreeFor (asUInt32 key) sys sys') {p : ProcFile} (hp : procMap.find? key = some p)
    {fresh' : ProcInfo} {r r' : Text × ProcMap}
    (hr : ProcReader.do_read sys fresh options procMap = .ok r)
    (hr' : ProcReader.do_read sys' fresh' options procMap = .ok r') :
    (r.2.find? key).map ProcFile.attributes = (r'.2.find? key).map ProcFile.attributes := by
  obtain ⟨q,hq,u,_,hv⟩ := ProcReader.do_read_process hr hp
  obtain ⟨q',hq',u',_,hv'⟩ := ProcReader.do_read_process hr' hp
  rw [hq, hq']
  suffices hqq : q = q' by rw [hqq]
  have hexe := hagree.exe
  rcases ProcReader.visit_eq_ok hv with ⟨hs,rfl⟩ | ⟨info,funcs,hs,hg,rfl⟩ <;>
    rcases ProcReader.visit_eq_ok hv' with ⟨hs',rfl⟩ | ⟨info',funcs',hs',hg',rfl⟩
  · rfl
  · rw [hs, hs'] at hexe
    cases hexe
  · rw [hs, hs'] at hexe
    cases hexe
  · rw [hs, hs'] at hexe
    cases hexe
    have hown := h.resolve_left fun hno => by
      rw [hs] at hno
      cases hno
    have hentry : ∀ c ∈ options,
        ProcReader.entry sys (u.info.forProcess sys (asUInt32 key) info) c =
          ProcReader.entry sys' (u'.info.forProcess sys' (asUInt32 key) info) c := by
      intro c hc
      rw [← hagree.forProcess, ← hagree.entry rfl]
      unfold ProcReader.entry
      cases ho : ProcOption.ofChar c with
      | none => rfl
      | some o =>
        rw [ProcOption.ofChar_eq_some] at ho
        subst ho
        simp only [ProcOption.own_text (hown o hc) info u.info u'.info]
    rw [gather_congr hentry, hg'] at hg
    rw [Except.ok.inj hg]

variable (hoptions : ∀ c ∈ options, c ∈ PROC_OPTS_DEFAULT)
include hoptions

/-- A process that ends every run shows in none. -/
theorem Stopped.reported (h : Stopped sys options key) (hagree : AgreeFor (asUInt32 key) sys sys')
    {p : ProcFile} (hp : procMap.find? key = some p) (fresh : ProcInfo) :
    reported sys' options procMap key fresh = none := by
  obtain ⟨info,hinfo,o,ho,hno⟩ := h
  rw [Option.eq_none_iff_forall_ne_some]
  intro l hl
  obtain ⟨⟨out,m⟩,q,hr,_,_⟩ := reported_eq_some hl
  obtain ⟨_,_,u,_,hv⟩ := ProcReader.do_read_process hr hp
  have hneeds := (ProcReader.visit_completes_iff hoptions).mp ⟨_,hv⟩ info (hagree.exe ▸ hinfo) o ho
  rw [← hagree.answered, ← hagree.forProcess] at hneeds
  exact hno _ hneeds

/-- When no process ends the run it gets through. -/
theorem completes_of_own (hstop : ¬ Stopped sys options key)
    (hothers : OthersAnswered sys options procMap key) (hown : OwnReads sys options key)
    (hagree : AgreeFor (asUInt32 key) sys sys') (fresh : ProcInfo) :
    Completes (ProcReader.do_read sys' fresh options procMap) := by
  rw [ProcReader.do_read_completes_iff hoptions]
  refine visits_of_invariant (I := fun _ => True) (fun i e he _ => ?_) (fun _ _ _ _ => trivial) trivial
  intro info hinfo o ho
  rw [← hagree.answered]
  rcases hothers with honly | hall
  · have hk : e.1 = key := honly e.1 e.2 (OMap.mem_entries.mp he)
    rw [hk] at hinfo ⊢
    rw [← hagree.forProcess]
    rw [← hagree.exe] at hinfo
    have hreads := (hown.resolve_left fun hno => by
      rw [hinfo] at hno
      cases hno) o ho
    -- some record gets the option an answer, so every one does
    obtain ⟨j,hj⟩ : ∃ j : ProcInfo, o.answered sys (j.forProcess sys (asUInt32 key) info) := by
      by_contra hno
      exact hstop ⟨info,hinfo,o,ho,not_exists.mp hno⟩
    rwa [← ProcOption.text_completes_iff, ProcOption.own_text hreads info i j, ProcOption.text_completes_iff]
  · exact hall o ho _

theorem exists_reportedAs {p : ProcFile} (hp : procMap.find? key = some p)
    (hstop : ¬ Stopped sys options key) (hothers : OthersAnswered sys options procMap key)
    (hown : OwnReads sys options key) : ∃ l, ReportedAs sys options procMap key l := by
  have hruns : ∀ {sys'}, AgreeFor (asUInt32 key) sys sys' → ∀ fresh, ∃ r,
      ProcReader.do_read sys' fresh options procMap = .ok r :=
    fun hagree fresh => completes_of_own hoptions hstop hothers hown hagree fresh
  obtain ⟨r,hr⟩ := hruns (.refl sys) default
  obtain ⟨q,hq,_⟩ := ProcReader.do_read_process hr hp
  refine ⟨q.attributes,fun sys' hagree fresh => ?_⟩
  obtain ⟨r',hr'⟩ := hruns hagree fresh
  rw [reported_of_ok hr', ← hown.attributes_eq hagree hp hr hr', hq, Option.map_some]

end

end Cphf
