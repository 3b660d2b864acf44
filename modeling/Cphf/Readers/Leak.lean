import Cphf.Readers.Quiet
import Cphf.Readers.Shown

/-! How one process shows in the report about another. A member which a process's own stat file
does not give shows what was left in the record; and any process whose options have no answer
ends the run for all. So nothing shows only when neither can happen. -/
namespace Cphf
open CLib

/-- A field of a stat file that gives a member of 64 bits this value. -/
def token64 (v : UInt64) : Text × Item := (decimal v.toNat,.unsigned v)

theorem token64_reads (v : UInt64) : Reads (.unsigned true) (token64 v).1 (token64 v).2 := by
  have h := reads_unsigned true v.toNat
  have hv : numeralItem (.unsigned true) false v.toNat = .unsigned v := by
    have := v.toNat_lt
    simp [numeralItem, strtoul]
    omega
  rwa [hv] at h

/-- A field that gives a signed member a small value. -/
def tokenSigned (n : ℕ) : Text × Item := (decimal n,.signed n)

theorem tokenSigned_reads (long : Bool) {n : ℕ} (h : n < 2^31) :
    Reads (.signed long) (tokenSigned n).1 (tokenSigned n).2 := by
  have hr := reads_signed long n
  have hn : numeralItem (.signed long) false n = .signed n := by
    have hs : strtol false n = n := by
      unfold strtol
      simp
      omega
    cases long <;> simp [numeralItem, hs]
    exact asInt_of_lt (by omega) (by omega)
  rwa [hn] at hr

/-- Fields for all members; the start time is given. -/
def StatField.base (start : UInt64) : StatField → Text × Item
  | state => (['R'],.char 'R')
  | ppid | procgid | device | rss => tokenSigned 0
  | starttime => token64 start
  | _ => token64 0

theorem StatField.base_reads (start : UInt64) (f : StatField) :
    Reads f.conversion (f.base start).1 (f.base start).2 := by
  cases f with
  | state => exact reads_char (by decide)
  | ppid | procgid | device => exact tokenSigned_reads false (by decide)
  | rss => exact tokenSigned_reads true (by decide)
  | starttime => exact token64_reads start
  | putime | pstime | pcutime | pcstime | vms | textbegin | textend | stackbegin | esp | epi
  | databegin | dataend => exact token64_reads 0

/-- A record with an entry of this name and number for every lookup. -/
def ProcInfo.knownAs (name : Text) (n : UInt32) : ProcInfo :=
  { (default : ProcInfo) with pw := some ⟨name,n⟩, gr := some ⟨name,n⟩ }

lemma ProcInfo.knownAs_known (name : Text) (n : UInt32) : (knownAs name n).LooksKnown :=
  ⟨Option.some_ne_none _,Option.some_ne_none _⟩

lemma StatField.store_known (f : StatField) (x : Item) {i : ProcInfo} (h : i.LooksKnown) :
    (f.store x i).LooksKnown := by cases f <;> exact h

/-- Entries that were looked up before, and not for the process, show when nothing clears them. -/
lemma looksUp_shows {sys : System} {pid : UInt32} (info : Stat) {o : ProcOption}
    (hl : o.looksUp = true) (hfile : sys.file (procPath pid "stat".toList) = none) :
    o.text sys ((ProcInfo.knownAs "a".toList 0).forProcess sys pid info) ≠
      o.text sys ((ProcInfo.knownAs "b".toList 1).forProcess sys pid info) := by
  have hname : (Except.ok "a".toList : Except Fault Text) ≠ .ok "b".toList := by decide
  have hnumber : (Except.ok (decimal 0) : Except Fault Text) ≠ .ok (decimal 1) := by decide
  rw [forProcess_noFile hfile, forProcess_noFile hfile]
  cases o with
  | username =>
    rw [ProcOption.text_username, ProcOption.text_username]
    exact hname
  | uid =>
    rw [ProcOption.text_uid, ProcOption.text_uid]
    exact hnumber
  | ugidName =>
    rw [ProcOption.text_ugidName, ProcOption.text_ugidName]
    exact hname
  | ugid =>
    rw [ProcOption.text_ugid, ProcOption.text_ugid]
    exact hnumber
  | command | ppid | procgid | startTime | cpuTime | state | device | vms | rms | memText | memData
  | memStack | instPtr | perms => cases hl

/-- After a line with all members each of them has its field's value, and nothing is looked up. -/
theorem forProcess_statLine {sys : System} {pid : UInt32} {val : StatField → Text × Item}
    (h : ∀ f, Reads f.conversion (val f).1 (val f).2)
    (hfile : sys.file (procPath pid "stat".toList) = some (statLine val)) (info : Stat)
    (i : ProcInfo) : (∀ f : StatField, f.holds (val f).2 (i.forProcess sys pid info)) ∧
      (i.forProcess sys pid info).pw = none ∧ (i.forProcess sys pid info).gr = none := by
  rw [forProcess_opened hfile, converted_statLine h]
  refine ⟨fun f => ?_,rfl,rfl⟩
  have hheld : f.holds (val f).2 (storeAll (statFields.map fun g => (g,(val g).2)) i) := by
    refine StatField.holds_storeAll ?_ (.inl (List.mem_map.mpr ⟨f,mem_statFields f,rfl⟩))
    simpa [Function.comp_def] using statFields_nodup
  cases f <;> exact hheld

/-- Without lookups made before, what an option needs is the least. -/
lemma answered_of_unknown {sys : System} {o : ProcOption} {i j : ProcInfo} (hpw : j.pw = none)
    (hgr : j.gr = none) (hinfo : j.info = i.info) (hs : j.starttime = i.starttime)
    (h : o.answered sys j) : o.answered sys i := by
  cases o with
  | username | uid => exact .inr (hinfo ▸ h.resolve_left fun hne => hne hpw)
  | ugidName | ugid => exact .inr (hinfo ▸ h.resolve_left fun hne => hne hgr)
  | startTime => exact answered_of_starttime hs.symm h
  | command | ppid | procgid | cpuTime | state | device | vms | rms | memText | memData | memStack
  | instPtr | perms => exact h

/-- Options that each have an answer for some record all have one for the same record. -/
lemma exists_answered {sys : System} {pid : UInt32} {info : Stat} {options : Text}
    (h : ∀ o : ProcOption, o.char ∈ options →
      ∃ i : ProcInfo, o.answered sys (i.forProcess sys pid info)) :
    ∃ u : ProcInfo, u.LooksKnown ∧ ∀ o : ProcOption, o.char ∈ options →
      o.answered sys (u.forProcess sys pid info) := by
  -- the start time is the only member asked for, so its record is taken
  obtain ⟨j,hj⟩ : ∃ j : ProcInfo, ProcOption.startTime.char ∈ options →
      ProcOption.startTime.answered sys (j.forProcess sys pid info) := by
    by_cases hs : ProcOption.startTime.char ∈ options
    · obtain ⟨j,hj⟩ := h _ hs
      exact ⟨j,fun _ => hj⟩
    · exact ⟨default,fun hno => absurd hno hs⟩
  let u : ProcInfo := { j with pw := some ⟨[],0⟩, gr := some ⟨[],0⟩ }
  refine ⟨u,⟨Option.some_ne_none _,Option.some_ne_none _⟩,fun o ho => ?_⟩
  obtain ⟨i,hi⟩ := h o ho
  cases o with
  | startTime =>
    have hs : StatField.starttime.same (u.forProcess sys pid info) (j.forProcess sys pid info) :=
      forProcess_same_left info rfl
    exact answered_of_starttime hs (hj ho)
  | username | uid | ugidName | ugid =>
    cases hfile : sys.file (procPath pid "stat".toList) with
    | none =>
      rw [forProcess_noFile hfile]
      exact .inl (Option.some_ne_none _)
    | some fin =>
      obtain ⟨hpw,hgr⟩ := (@forProcess_same sys pid info u i).2 (hfile ▸ Option.some_ne_none fin)
      unfold ProcOption.answered at hi ⊢
      first | rwa [hpw] | rwa [hgr]
  | command | ppid | procgid | cpuTime | state | device | vms | rms | memText | memData | memStack
  | instPtr | perms => exact hi

/-- Keys that are `int`s name different processes. -/
lemma asUInt32_ne {k key : ℤ} (hk : -2^31 ≤ k ∧ k < 2^31) (hkey : -2^31 ≤ key ∧ key < 2^31)
    (hne : k ≠ key) : asUInt32 k ≠ asUInt32 key := by
  intro heq
  rw [← asInt_asUInt32 hk.1 hk.2, heq, asInt_asUInt32 hkey.1 hkey.2] at hne
  exact hne rfl

section
variable {sys : System} {options : Text} {procMap : ProcMap} {key : ℤ} {p : ProcFile}
  {l : List CphfAttribute}
variable (hoptions : ∀ c ∈ options, c ∈ PROC_OPTS_DEFAULT) (hp : procMap.find? key = some p)
include hoptions hp

/-- Whoever is always reported alike has one text for an option, whatever the record. -/
theorem ReportedAs.text_eq (h : ReportedAs sys options procMap key l) {info : Stat}
    (hinfo : sys.stat (exePath sys (asUInt32 key)) = some info) {u v : ProcInfo}
    (hu : u.LooksKnown) (hv : v.LooksKnown) {o : ProcOption} (ho : o.char ∈ options)
    (hne : o ≠ .command) : o.text sys (u.forProcess sys (asUInt32 key) info) =
      o.text sys (v.forProcess sys (asUInt32 key) info) := by
  have hread : ∀ {u : ProcInfo}, u.LooksKnown → ∃ funcs t,
      gather (ProcReader.entry sys (u.forProcess sys (asUInt32 key) info)) ∅ options = .ok funcs ∧
      (p.addAttributes funcs.entries).attributes = l ∧
      o.text sys (u.forProcess sys (asUInt32 key) info) = .ok t := by
    intro u hu
    obtain ⟨funcs,hg,hl⟩ := (reported_quiet hp hinfo hu hoptions).mp (h _ (agreeFor_quiet sys) u)
    obtain ⟨t,ht⟩ := (ProcOption.text_completes_iff sys _ o).mpr
      ((ProcReader.gather_completes_iff hoptions).mp ⟨_,hg⟩ o ho)
    exact ⟨funcs,t,hg,hl,ht⟩
  obtain ⟨funcs,t,hg,hl,ht⟩ := hread hu
  obtain ⟨funcs',t',hg',hl',ht'⟩ := hread hv
  rw [ProcFile.addAttributes_attributes] at hl hl'
  have hcmd : o.attribID ≠ .cmd := fun hc => hne (ProcOption.attribID_injective hc)
  have hin := mem_of_arranged_eq (gathered_keys hg hg') (hl.trans hl'.symm)
    (mem_gathered_text hg ho ht) hcmd
  have htt := (OMap.mem_entries.mp hin).symm.trans
    (OMap.mem_entries.mp (mem_gathered_text hg' ho ht'))
  rw [ht, ht', Option.some.inj htt]

theorem ReportedAs.ownReads (h : ReportedAs sys options procMap key l) :
    OwnReads sys options key := by
  cases hinfo : sys.stat (exePath sys (asUInt32 key)) with
  | none => exact .inl hinfo
  | some info =>
    refine .inr fun o ho => ⟨?_,fun hl hfile => ?_⟩
    · have hsame : ∀ x y f, f ∉ givenMembers sys (asUInt32 key) → o ≠ .command →
          o.text sys (f.store x ((ProcInfo.knownAs [] 0).forProcess sys (asUInt32 key) info)) =
          o.text sys (f.store y ((ProcInfo.knownAs [] 0).forProcess sys (asUInt32 key) info)) := by
        intro x y f hf hne
        rw [← forProcess_store hf, ← forProcess_store hf]
        exact h.text_eq hoptions hp hinfo (f.store_known x (ProcInfo.knownAs_known _ _))
          (f.store_known y (ProcInfo.knownAs_known _ _)) ho hne
      by_cases hs : o = .startTime
      · subst hs
        by_cases hgiven : StatField.starttime ∈ givenMembers sys (asUInt32 key)
        · left
          intro f hf
          rwa [List.mem_singleton.mp hf]
        · refine .inr ⟨rfl,fun v w => ?_⟩
          have ht := hsame (.unsigned v) (.unsigned w) .starttime hgiven (by decide)
          rwa [ProcOption.text_startTime, ProcOption.text_startTime] at ht
      · left
        intro f hf
        by_contra hgiven
        obtain ⟨x,y,hne⟩ := distinguishes sys
          ((ProcInfo.knownAs [] 0).forProcess sys (asUInt32 key) info) hf hs
        have hcmd : o ≠ .command := by
          rintro rfl
          cases hf
        exact hne (hsame x y f hgiven hcmd)
    · have hcmd : o ≠ .command := by
        rintro rfl
        cases hl
      exact looksUp_shows info hl hfile (h.text_eq hoptions hp hinfo
        (ProcInfo.knownAs_known _ _) (ProcInfo.knownAs_known _ _) ho hcmd)

/-- A process that may end the run for another one leaves it unreported. -/
theorem ReportedAs.othersAnswered (h : ReportedAs sys options procMap key l)
    (hkeys : ∀ k q, procMap.find? k = some q → -2^31 ≤ k ∧ k < 2^31) :
    OthersAnswered sys options procMap key := by
  by_contra hno
  unfold OthersAnswered at hno
  push Not at hno
  obtain ⟨⟨k,p',hk,hne⟩,o,ho,i,hi⟩ := hno
  have hpid := asUInt32_ne (hkeys k p' hk) (hkeys key p hp) hne
  -- the other process is given the start time and the owner that have no answer
  have hagree := @agreeFor_withOthers sys (asUInt32 key)
    (some (statLine (StatField.base i.starttime))) (some i.info)
  obtain ⟨⟨out,m⟩,_,hr,_,_⟩ := reported_eq_some (h _ hagree default)
  obtain ⟨_,_,st,_,hv⟩ := ProcReader.do_read_process hr hk
  have hneeds := (ProcReader.visit_completes_iff hoptions).mp ⟨_,hv⟩ i.info
    (withOthers_exe sys (some i.info) hpid) o ho
  rw [← hagree.answered] at hneeds
  obtain ⟨hheld,hpw,hgr⟩ := forProcess_statLine (StatField.base_reads i.starttime)
    (withOthers_file sys (some (statLine (StatField.base i.starttime))) (some i.info) hpid) i.info
    st.info
  exact hi (answered_of_unknown hpw hgr rfl (hheld .starttime) hneeds)

theorem ReportedAs.not_stopped (h : ReportedAs sys options procMap key l) :
    ¬ Stopped sys options key := by
  intro hstop
  have hnone := hstop.reported hoptions (.refl sys) hp default
  rw [h sys (.refl sys) default] at hnone
  cases hnone

/-- Unless the process itself ends every run, some run reports it. -/
theorem exists_reported (hkeys : ∀ k q, procMap.find? k = some q → -2^31 ≤ k ∧ k < 2^31)
    (hstop : ¬ Stopped sys options key) : ∃ sys' fresh l, AgreeFor (asUInt32 key) sys sys' ∧
      reported sys' options procMap key fresh = some l := by
  cases hinfo : sys.stat (exePath sys (asUInt32 key)) with
  | none =>
    -- nobody has a program to be examined
    have hagree := @agreeFor_withOthers sys (asUInt32 key) (some []) none
    have hcompletes : Completes (ProcReader.do_read
        (sys.withOthers (asUInt32 key) (some []) none) default options procMap) := by
      rw [ProcReader.do_read_completes_iff hoptions]
      refine visits_of_invariant (I := fun _ => True) (fun i e he _ => ?_) (fun _ _ _ _ => trivial)
        trivial
      intro info hsome
      by_cases hk : e.1 = key
      · rw [hk, ← hagree.exe, hinfo] at hsome
        cases hsome
      · have hpid := asUInt32_ne (hkeys _ _ (OMap.mem_entries.mp he)) (hkeys key p hp) hk
        rw [withOthers_exe sys none hpid] at hsome
        cases hsome
    obtain ⟨⟨out,m⟩,hr⟩ := hcompletes
    obtain ⟨q,hq,_⟩ := ProcReader.do_read_process hr hp
    exact ⟨_,default,q.attributes,hagree,by rw [reported_of_ok hr, hq, Option.map_some]⟩
  | some info =>
    have hsome : ∀ o : ProcOption, o.char ∈ options →
        ∃ i : ProcInfo, o.answered sys (i.forProcess sys (asUInt32 key) info) := by
      intro o ho
      by_contra hno
      exact hstop ⟨info,hinfo,o,ho,not_exists.mp hno⟩
    obtain ⟨u,hknown,hneeds⟩ := exists_answered hsome
    obtain ⟨funcs,hg⟩ := (ProcReader.gather_completes_iff hoptions).mpr hneeds
    exact ⟨_,_,_,agreeFor_quiet sys,(reported_quiet hp hinfo hknown hoptions).mpr ⟨funcs,hg,rfl⟩⟩

end

/-- What is reported about a process has nothing of another one, whatever the others are, exactly
when the process itself ends every run, or when no other can end it and all that is read is the
process's own. In the second case every run gets through. -/
theorem isolated_iff_own {sys : System} {options : Text} {procMap : ProcMap} {key : ℤ} {p : ProcFile}
    (hkeys : ∀ k q, procMap.find? k = some q → -2^31 ≤ k ∧ k < 2^31)
    (hoptions : ∀ c ∈ options, c ∈ PROC_OPTS_DEFAULT) (hp : procMap.find? key = some p) :
    (Isolated sys options procMap key ↔ Stopped sys options key ∨
      OthersAnswered sys options procMap key ∧ OwnReads sys options key) ∧
    ((∃ l, ReportedAs sys options procMap key l) ↔ ¬ Stopped sys options key ∧
      OthersAnswered sys options procMap key ∧ OwnReads sys options key) := by
  have hreported : (∃ l, ReportedAs sys options procMap key l) ↔ ¬ Stopped sys options key ∧
      OthersAnswered sys options procMap key ∧ OwnReads sys options key := by
    constructor
    · rintro ⟨l,h⟩
      exact ⟨h.not_stopped hoptions hp,h.othersAnswered hoptions hp hkeys,h.ownReads hoptions hp⟩
    · rintro ⟨hstop,hothers,hown⟩
      exact exists_reportedAs hoptions hp hstop hothers hown
  refine ⟨⟨fun h => ?_,?_⟩,hreported⟩
  · by_cases hstop : Stopped sys options key
    · exact .inl hstop
    -- some run reports the process, so all of them do, and alike
    · obtain ⟨sys',fresh,l,hagree,hl⟩ := exists_reported hoptions hp hkeys hstop
      refine .inr (hreported.mp ⟨l,fun sys'' hagree'' fresh'' => ?_⟩).2
      rw [← hl, ← h sys' hagree fresh fresh, h sys'' hagree'' fresh fresh'']
  · rintro (hstop | ⟨hothers,hown⟩) sys' hagree fresh fresh'
    · rw [hstop.reported hoptions (.refl sys) hp, hstop.reported hoptions hagree hp]
    · by_cases hstop : Stopped sys options key
      · rw [hstop.reported hoptions (.refl sys) hp, hstop.reported hoptions hagree hp]
      · obtain ⟨l,hl⟩ := exists_reportedAs hoptions hp hstop hothers hown
        rw [hl sys (.refl sys) fresh, hl sys' hagree fresh']

def twoProcesses : ProcMap :=
  ((∅ : ProcMap).insertNew 1 (ProcFile.new.addAttribute .pid "1".toList)).insertNew 2
    (ProcFile.new.addAttribute .pid "2".toList)

/-- Two processes with complete stat files, in a system that answers. -/
def fullStats : System :=
  { answering with
    file := fun path =>
      if path = procPath 1 "stat".toList then
        some ("1 (init) S 0 1 1 0 -1 4194560 9 8 7 6 25 31 5 4 20 0 1 0 2 9999 88 7777 " ++
          "4096 8192 140000 130000 120000 0 0 0 0 0 0 0 17 3 0 0 0 0 0 5000 6000 7000 0 0 0 0 0").toList
      else if path = procPath 2 "stat".toList then
        some ("2 (sh) R 1 2 2 34817 2 4194304 1 2 3 4 11 12 13 14 20 0 1 0 700 5555 44 3333 " ++
          "1024 2048 150000 149000 148000 0 0 0 0 0 0 0 17 2 0 0 0 0 0 3000 3500 3600 0 0 0 0 0").toList
      else if path = "/proc/uptime".toList then some "100.25 50.00".toList
      else none }

/-- Whatever the options, the second process is reported by itself. -/
theorem isolated_two : Isolated fullStats PROC_OPTS_DEFAULT twoProcesses 2 ∧
    ∃ l, ReportedAs fullStats PROC_OPTS_DEFAULT twoProcesses 2 l := by
  have hanswered : ∀ (o : ProcOption) (i : ProcInfo), o.answered fullStats i := by
    intro o i
    cases o with
    | username | uid | ugidName | ugid => exact .inr (Option.some_ne_none _)
    | startTime => exact fun boot _ => Option.some_ne_none _
    | device =>
      have hno : fullStats.file "/proc/tty/drivers".toList = none := by decide +kernel
      intro fsin hfsin
      rw [hno] at hfsin
      cases hfsin
    | command | ppid | procgid | cpuTime | state | vms | rms | memText | memData | memStack
    | instPtr | perms => trivial
  have hgiven : ∀ f ∈ statFields, f ∈ givenMembers fullStats 2 := by decide +kernel
  have hfile : fullStats.file (procPath 2 "stat".toList) ≠ none := by decide +kernel
  have hothers : OthersAnswered fullStats PROC_OPTS_DEFAULT twoProcesses 2 :=
    .inr fun o _ i => hanswered o i
  have hown : OwnReads fullStats PROC_OPTS_DEFAULT 2 :=
    .inr fun o _ => ⟨.inl fun f _ => hgiven f (mem_statFields f),fun _ => hfile⟩
  have hstop : ¬ Stopped fullStats PROC_OPTS_DEFAULT 2 := by
    rintro ⟨info,_,o,_,hno⟩
    exact hno default (hanswered o _)
  have hbounds : ∀ e ∈ twoProcesses.entries, -2^31 ≤ e.1 ∧ e.1 < 2^31 := by decide +kernel
  have h := @isolated_iff_own fullStats PROC_OPTS_DEFAULT twoProcesses 2 _
    (fun k q hk => hbounds (k,q) (OMap.mem_entries.mpr hk)) (fun _ hc => hc) rfl
  exact ⟨h.1.mpr (.inr ⟨hothers,hown⟩),h.2.mpr ⟨hstop,hothers,hown⟩⟩

def shortStat (first : Text) : System :=
  { (default : System) with
    file := fun path =>
      if path = procPath 1 "stat".toList then some first
      else if path = procPath 2 "stat".toList then some "2 (b) S".toList else none
    stat := fun path =>
      if path = procPath 1 "exe".toList ∨ path = procPath 2 "exe".toList then some default
      else none }

theorem agreeFor_shortStat (first first' : Text) : AgreeFor 2 (shortStat first) (shortStat first') where
  file path hpath := by
    have h : path ≠ procPath 1 "stat".toList := (hpath 1 (by decide)).1
    simp only [shortStat, if_neg h]
  stat _ _ := rfl
  getpwuid := rfl
  getgrgid := rfl
  localtime := rfl
  time := rfl
  clkTck := rfl

/-- The second process is reported with the parent of the first. -/
theorem not_isolated_shortStat : (∀ c ∈ "P".toList, c ∈ PROC_OPTS_DEFAULT) ∧
    reported (shortStat "1 (a) S 7".toList) "P".toList twoProcesses 2 default =
      some [(.pid,"2".toList),(.ppid,"7".toList)] ∧
    ¬ Isolated (shortStat "1 (a) S 7".toList) "P".toList twoProcesses 2 := by
  have hseven : reported (shortStat "1 (a) S 7".toList) "P".toList twoProcesses 2 default =
      some [(.pid,"2".toList),(.ppid,"7".toList)] := by decide +kernel
  have height : reported (shortStat "1 (a) S 8".toList) "P".toList twoProcesses 2 default =
      some [(.pid,"2".toList),(.ppid,"8".toList)] := by decide +kernel
  refine ⟨accepted_of_all (by decide),hseven,fun h => ?_⟩
  have he := h _ (agreeFor_shortStat _ "1 (a) S 8".toList) default default
  rw [hseven, height] at he
  exact absurd he (by decide)

end Cphf
