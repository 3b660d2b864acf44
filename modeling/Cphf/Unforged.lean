import Cphf.Labels
import Cphf.Readers.FileName
import Cphf.Readers.Drivers

/-! Whether the processes and files a report describes can forge it. Their command lines and
link targets are printed as they are, so a newline in one of them is a line of the report; without
newlines in what is read, every value is one line, and the report can be read back. -/
namespace Cphf
open CLib

/-- What is read of the system has no newlines. -/
structure System.OneLine (sys : System) : Prop where
  cmdline : ∀ pid fsin, sys.file (procPath pid "cmdline".toList) = some fsin → '\n' ∉ fsin
  link : ∀ path n target, sys.readlink path n = some target → '\n' ∉ target
  pw_name : ∀ uid pw, sys.getpwuid uid = some pw → oneLine pw.pw_name = true
  gr_name : ∀ gid gr, sys.getgrgid gid = some gr → oneLine gr.gr_name = true
  zone : ∀ t tm, sys.localtime t = some tm → '\n' ∉ tm.zone
  drivers : ∀ fsin, sys.file "/proc/tty/drivers".toList = some fsin → '\x00' ∉ fsin

/-- So has what new memory happens to hold. -/
structure Surroundings.OneLine (env : Surroundings) : Prop where
  sys : env.sys.OneLine
  pw_name : ∀ pw, env.fresh.pw = some pw → oneLine pw.pw_name = true
  gr_name : ∀ gr, env.fresh.gr = some gr → oneLine gr.gr_name = true

theorem oneLine_dayName (d : Fin 7) : oneLine (dayName d) = true := by
  revert d
  decide

theorem oneLine_monthName (m : Fin 12) : oneLine (monthName m) = true := by
  revert m
  decide

theorem Tm.expand_oneLine {tm : Tm} (h : '\n' ∉ tm.zone) (c : Char) :
    oneLine (tm.expand c) = true := by
  unfold expand
  split_ifs
  · exact oneLine_dayName _
  · exact oneLine_monthName _
  · simp
  · simp
  · simp
  · exact oneLine_c_str h
  · rfl

theorem Tm.formatted_oneLine {tm : Tm} (h : '\n' ∉ tm.zone) {fmt : Text} (hf : oneLine fmt = true) :
    oneLine (tm.formatted fmt) = true := by
  fun_induction Tm.formatted tm fmt with
  | case1 => rfl
  | case2 c => exact hf
  | case3 d s ih =>
    rw [oneLine_cons, oneLine_cons] at hf
    exact (oneLine_append _ _).mpr ⟨expand_oneLine h d,ih hf.2.2⟩
  | case4 c d s hc ih =>
    rw [oneLine_cons] at hf
    exact (oneLine_cons _ _).mpr ⟨hf.1,ih hf.2⟩

theorem readLocalTime_oneLine {sys : System} (h : sys.OneLine) {t : ℤ} {s : Text}
    (hs : readLocalTime sys t CPHF_FORMAT_DATE_TIME = .ok s) : oneLine s = true := by
  unfold readLocalTime at hs
  split at hs
  · cases hs
  · rename_i tm htm
    split at hs
    · cases hs
      decide
    · rename_i s' hs'
      cases hs
      unfold strftime at hs'
      split_ifs at hs'
      cases hs'
      exact Tm.formatted_oneLine (h.zone t tm htm) (by decide)

theorem readETime_oneLine (sys : System) (t : ℤ) : oneLine (readETime sys t) = true := by
  unfold readETime
  apply oneLine_of_subset (fun c hc => List.take_subset _ _ hc)
  simp

theorem formatRange_oneLine (a b : UInt64) : oneLine (formatRange a b) = true := by
  unfold formatRange
  rw [oneLine_append]
  refine ⟨by simp,?_⟩
  split
  · rw [oneLine_append]
    exact ⟨by decide,by simp⟩
  · rfl

theorem procstate_oneLine (c : Char) : oneLine (procstate c) = true := by
  unfold procstate
  split_ifs <;> decide

theorem readMode_oneLine (mode : UInt32) : oneLine (readMode mode) = true := by
  unfold readMode
  split_ifs <;> decide

lemma ite_printable (p : Prop) [Decidable p] {a b : Char} (ha : a ≠ '\n' ∧ a ≠ '\x00')
    (hb : b ≠ '\n' ∧ b ≠ '\x00') :
    (if p then a else b) ≠ '\n' ∧ (if p then a else b) ≠ '\x00' := by
  split
  · exact ha
  · exact hb

theorem readPerms_oneLine (mode : UInt32) : oneLine (readPerms mode) = true := by
  have hc : ∀ c ∈ readPerms mode, c ≠ '\n' ∧ c ≠ '\x00' := by
    intro c hc
    unfold readPerms at hc
    simp only [List.mem_cons, List.not_mem_nil, or_false] at hc
    rcases hc with rfl | rfl | rfl | rfl | rfl | rfl | rfl | rfl | rfl | rfl | rfl <;>
      refine ite_printable _ (by decide) ?_ <;>
      first | decide | exact ite_printable _ (by decide) (by decide)
  rw [oneLine_iff]
  exact ⟨fun hm => (hc _ hm).1 rfl,fun hm => (hc _ hm).2 rfl⟩

theorem readCMD_oneLine {sys : System} (h : sys.OneLine) (pid : UInt32) :
    oneLine (readCMD sys pid) = true := by
  unfold readCMD
  split
  · rfl
  · rename_i fsin hfile
    rw [oneLine_iff]
    refine ⟨fun hm => ?_,fun hm => ?_⟩
    · obtain ⟨l,hl,hm⟩ := List.mem_flatMap.mp hm
      rw [List.mem_append] at hm
      rcases hm with hm | hm
      · exact h.cmdline pid fsin hfile (mem_of_mem_getlines hl hm)
      · exact absurd hm (by decide)
    · obtain ⟨l,hl,hm⟩ := List.mem_flatMap.mp hm
      rw [List.mem_append] at hm
      rcases hm with hm | hm
      · exact not_mem_of_mem_getlines hl hm
      · exact absurd hm (by decide)

/-- The labels a device can be given are all one line. -/
def DeviceMap.OneLine (deviceMap : DeviceMap) : Prop :=
  ∀ major minMap, deviceMap.find? major = some minMap → ∀ e ∈ minMap, oneLine e.2 = true

lemma lookup_mem {κ ν : Type} {lt : κ → κ → Bool} {k : κ} {l : List (κ × ν)} {v : ν}
    (h : CLib.lookup lt k l = some v) : ∃ e ∈ l, e.2 = v := by
  induction l with
  | nil => cases h
  | cons e l ih =>
    unfold CLib.lookup at h
    split_ifs at h
    · obtain ⟨e',he',hv⟩ := ih h
      exact ⟨e',List.mem_cons_of_mem _ he',hv⟩
    · exact ⟨e,List.mem_cons_self,Option.some.inj h⟩

theorem insertDriver_oneLine {deviceMap : DeviceMap} (h : deviceMap.OneLine) {d : Driver}
    (hd : oneLine d.serialDevice = true) : (insertDriver deviceMap d).OneLine := by
  unfold insertDriver
  split
  · exact h
  · intro major minMap hfind e he
    rw [OMap.find?_insertNew] at hfind
    split_ifs at hfind with hm
    · rename_i hnone
      rw [hnone, Option.getD_none] at hfind
      cases hfind
      rw [List.mem_singleton.mp he]
      exact hd
    · exact h major minMap hfind e he

theorem buildDeviceMapLoop_oneLine {n : ℕ} {fsin : Text} (hnul : '\x00' ∉ fsin)
    {deviceMap m : DeviceMap} (h : deviceMap.OneLine)
    (hm : buildDeviceMapLoop n fsin deviceMap = .ok m) : m.OneLine := by
  induction n generalizing fsin deviceMap with
  | zero => cases hm
  | succ n ih =>
    obtain ⟨r,hr,hm⟩ := bind_eq_ok.mp hm
    cases r with
    | none =>
      cases hm
      exact h
    | some r =>
      obtain ⟨d,rest⟩ := r
      obtain ⟨⟨w,hw,hsub,hname⟩,hsuffix,_⟩ := readDriver_eq_ok hr
      refine ih (fun hc => hnul (hsuffix.subset hc)) (insertDriver_oneLine h ?_) hm
      rw [hname]
      refine oneLine_of_subset (fun c hc => List.drop_subset _ _ hc) (oneLine_iff.mpr ⟨?_,?_⟩)
      · exact fun hc => absurd (hw.2 _ hc) (by decide)
      · exact fun hc => hnul (hsub _ hc)

theorem deviceText_oneLine {deviceMap : DeviceMap} (h : deviceMap.OneLine) (dev : UInt64) :
    oneLine (deviceText deviceMap dev) = true := by
  have hnumbers : oneLine (decimal (majorOf dev) ++ ',' :: decimal (minorOf dev) ++ ['\t']) = true := by
    simp
  unfold deviceText
  dsimp only
  split
  · rw [oneLine_append]
    exact ⟨hnumbers,by decide⟩
  · rename_i devlabel hl
    obtain ⟨minMap,hfind,hlookup⟩ := Option.bind_eq_some_iff.mp hl
    obtain ⟨e,he,rfl⟩ := lookup_mem hlookup
    have hlabel := h _ minMap hfind e he
    split_ifs
    · simpa using hlabel
    · simpa using hlabel
    · exact hnumbers

theorem readDevice_oneLine {sys : System} (h : sys.OneLine) {info : Stat} {t : Text}
    (ht : readDevice sys info = .ok t) : oneLine t = true := by
  obtain ⟨m,hm,he⟩ := bind_eq_ok.mp ht
  cases he
  refine deviceText_oneLine ?_ _
  have hempty : DeviceMap.OneLine ∅ := fun _ _ h => by cases h
  unfold buildDeviceMap at hm
  split at hm
  · cases hm
    exact hempty
  · exact buildDeviceMapLoop_oneLine (h.drivers _ ‹_›) hempty hm

section
variable {sys : System} (h : sys.OneLine)
include h

theorem ProcOption.text_oneLine {fresh i : ProcInfo} (hi : i.Known sys fresh)
    (hpw : ∀ pw, fresh.pw = some pw → oneLine pw.pw_name = true)
    (hgr : ∀ gr, fresh.gr = some gr → oneLine gr.gr_name = true) {o : ProcOption} {t : Text}
    (ht : o.text sys i = .ok t) : oneLine t = true := by
  have hres := hi.resolved
  cases o with
  | command => rw [text_command] at ht; cases ht; exact readCMD_oneLine h _
  | username =>
    rw [text_username] at ht
    cases hl : i.pw.or (sys.getpwuid i.info.st_uid) with
    | none => rw [hl] at ht; cases ht
    | some pw =>
      rw [hl] at ht
      cases ht
      rcases hres.pw pw hl with hf | ⟨uid,hs⟩
      · exact hpw pw hf
      · exact h.pw_name uid pw hs
  | ugidName =>
    rw [text_ugidName] at ht
    cases hl : i.gr.or (sys.getgrgid i.info.st_gid) with
    | none => rw [hl] at ht; cases ht
    | some gr =>
      rw [hl] at ht
      cases ht
      rcases hres.gr gr hl with hf | ⟨gid,hs⟩
      · exact hgr gr hf
      · exact h.gr_name gid gr hs
  | uid =>
    rw [text_uid] at ht
    cases hl : i.pw.or (sys.getpwuid i.info.st_uid) <;> rw [hl] at ht <;> cases ht
    exact oneLine_decimal _
  | ugid =>
    rw [text_ugid] at ht
    cases hl : i.gr.or (sys.getgrgid i.info.st_gid) <;> rw [hl] at ht <;> cases ht
    exact oneLine_decimal _
  | startTime =>
    rw [text_startTime, readStartTime] at ht
    split at ht
    · cases ht
      decide
    · exact readLocalTime_oneLine h ht
  | cpuTime =>
    rw [text_cpuTime] at ht
    rw [← Except.ok.inj ht]
    exact readETime_oneLine sys _
  | state => rw [text_state] at ht; cases ht; exact procstate_oneLine _
  | device => rw [text_device] at ht; exact readDevice_oneLine h ht
  | perms => rw [text_perms] at ht; cases ht; exact readPerms_oneLine _
  | memText => rw [text_memText] at ht; cases ht; exact formatRange_oneLine _ _
  | memData => rw [text_memData] at ht; cases ht; exact formatRange_oneLine _ _
  | memStack => rw [text_memStack] at ht; cases ht; exact formatRange_oneLine _ _
  | instPtr => rw [text_instPtr] at ht; cases ht; exact formatRange_oneLine _ _
  | ppid => rw [text_ppid] at ht; cases ht; exact oneLine_decimal _
  | procgid => rw [text_procgid] at ht; cases ht; exact oneLine_decimal _
  | vms => rw [text_vms] at ht; cases ht; exact oneLine_decimal _
  | rms => rw [text_rms] at ht; cases ht; exact oneLine_decimal _

theorem FileOption.read_oneLine {path : Text} {stat : Stat} {o : FileOption} {t : Text}
    (ht : o.read sys path stat = .ok t) : oneLine t = true := by
  cases o with
  | name =>
    rcases readFileName_eq_ok sys path ht with rfl | ⟨n,target,hn,rfl⟩
    · rfl
    · exact oneLine_c_str (h.link path n target hn)
  | accessT => exact readLocalTime_oneLine h ht
  | modT => exact readLocalTime_oneLine h ht
  | statChangeT => exact readLocalTime_oneLine h ht
  | device => exact readDevice_oneLine h ht
  | mode => cases ht; exact readMode_oneLine _
  | perms => cases ht; exact readPerms_oneLine _
  | inode | uid | gid | size => cases ht; exact oneLine_decimal _
  | uname | gname => cases ht; rfl

end

/-- The value of an attribute is one line. -/
def OneLineValue (a : CphfAttribute) : Prop := oneLine a.2 = true

theorem Built.dig_oneLine {env : Surroundings} (henv : env.OneLine) {b b' : Built}
    {ddig : DataDigger} (h : AllStored OneLineValue b.procMap) (hd : b.dig env ddig = .ok b') :
    AllStored OneLineValue b'.procMap := by
  obtain ⟨reader,options⟩ := ddig
  cases reader with
  | lsof =>
    obtain ⟨⟨out,m⟩,hr,he⟩ := bind_eq_ok.mp hd
    cases he
    exact getFilesInfo_allStored (P := OneLineValue) (fun w hw => oneLine_c_str hw) rfl h hr
  | proc =>
    obtain ⟨⟨out,m⟩,hr,he⟩ := bind_eq_ok.mp hd
    cases he
    refine ProcReader.do_read_allStored (fun i hi c _ a ha => ?_) h hr
    obtain ⟨o,_,_,ht⟩ := (ProcReader.entry_eq_ok env.sys i).mp ha
    exact ProcOption.text_oneLine henv.sys hi henv.pw_name henv.gr_name ht
  | filestat =>
    obtain ⟨m,hr,he⟩ := bind_eq_ok.mp hd
    cases he
    refine FileStatReader.do_read_allStored (fun path stat c _ a ha => ?_) h hr
    obtain ⟨o,_,_,ht⟩ := (FileStatReader.processOpiton_eq_ok env.sys path stat).mp ha
    exact FileOption.read_oneLine henv.sys ht

/-- Whatever readers are run, every value stored is one line. -/
theorem build_oneLine {env : Surroundings} (henv : env.OneLine) {diggers : List DataDigger}
    {b : Built} (h : build env diggers = .ok b) : AllStored OneLineValue b.procMap :=
  run_invariant (fun _ _ _ hs hd => Built.dig_oneLine henv hs hd) (allStored_empty _) h

/-- What is printed after a run on such a system: the lines of the report are those of the entries
in the queue, and the text gives the entries back. -/
theorem runReaders_readBack {env : Surroundings} (henv : env.OneLine) {o : MainOptions}
    {r : Built × List CphfFile} (h : o.runReaders env = .ok r) :
    ∃ t, printFiles r.1.attributeFlags r.2 = .ok t ∧
      getlines '\n' t = reportLines (r.2.map CphfFile.entry) ∧
      readReport t = some (r.2.map CphfFile.entry) := by
  obtain ⟨t,ht⟩ := runReaders_prints h
  obtain ⟨b,hb,he⟩ := bind_eq_ok.mp h
  cases he
  refine ⟨t,ht,printFiles_readBack (build_ownLabels hb) (fun f hf => ?_) ht⟩
  rcases (build_oneLine henv hb).flattenMap hf with ⟨p,rfl,hp⟩ | ⟨u,rfl,hu⟩
  · exact hp
  · exact hu

/-- On systems where nothing that is read has a newline, a report has one line for every attribute
stored, and different entries are never reported alike. -/
theorem report_unforged {env env' : Surroundings} (henv : env.OneLine) (henv' : env'.OneLine)
    {o o' : MainOptions} {r r' : Built × List CphfFile} (h : o.runReaders env = .ok r)
    (h' : o'.runReaders env' = .ok r') :
    ∃ t t', printFiles r.1.attributeFlags r.2 = .ok t ∧
      printFiles r'.1.attributeFlags r'.2 = .ok t' ∧
      getlines '\n' t = reportLines (r.2.map CphfFile.entry) ∧
      readReport t = some (r.2.map CphfFile.entry) ∧
      (t = t' → r.2.map CphfFile.entry = r'.2.map CphfFile.entry) := by
  obtain ⟨t,ht,hlines,hread⟩ := runReaders_readBack henv h
  obtain ⟨t',ht',_,hread'⟩ := runReaders_readBack henv' h'
  refine ⟨t,t',ht,ht',hlines,hread,?_⟩
  rintro rfl
  exact Option.some.inj (hread.symm.trans hread')

/-- One process with one unlinked file, whose link has this target and whose inode is 5. -/
def linkedTo (target : Text) : Surroundings where
  rlim_max := some 1024
  lsof := .output "p7\nf3\n".toList
  sys :=
    { (default : System) with
      stat := fun _ => some { (default : Stat) with st_ino := 5 }
      readlink := fun _ _ => some target
      linkMax := target.length
      readlink_le := by
        intro _ _ _ h
        rw [Option.some.inj h] }
  fresh := default

theorem linkedTo_oneLine {target : Text} (h : '\n' ∉ target) : (linkedTo target).OneLine where
  sys :=
    { cmdline := fun _ _ hf => by cases hf
      link := fun _ _ t ht => by
        rw [← Option.some.inj ht]
        exact h
      pw_name := fun _ _ hp => by cases hp
      gr_name := fun _ _ hg => by cases hg
      zone := fun _ _ ht => by cases ht
      drivers := fun _ hf => by cases hf }
  pw_name := fun _ hp => by cases hp
  gr_name := fun _ hg => by cases hg

/-- Only the files, with their names; and with their inodes. -/
def namesOnly : MainOptions := ⟨NO,"n".toList,true,[]⟩

def namesAndInodes : MainOptions := ⟨NO,"ni".toList,true,[]⟩

theorem report_unforged_names : ∃ r r' t t', namesOnly.runReaders (linkedTo ['a']) = .ok r ∧
    namesAndInodes.runReaders (linkedTo ['b']) = .ok r' ∧
    printFiles r.1.attributeFlags r.2 = .ok t ∧ printFiles r'.1.attributeFlags r'.2 = .ok t' ∧
    getlines '\n' t = reportLines (r.2.map CphfFile.entry) ∧
    readReport t = some (r.2.map CphfFile.entry) ∧
    (t = t' → r.2.map CphfFile.entry = r'.2.map CphfFile.entry) := by
  have hr : (fun r => r.2.length) <$> namesOnly.runReaders (linkedTo ['a']) = .ok 1 := by
    decide +kernel
  have hr' : (fun r => r.2.length) <$> namesAndInodes.runReaders (linkedTo ['b']) = .ok 1 := by
    decide +kernel
  obtain ⟨r,h,_⟩ := map_eq_ok.mp hr
  obtain ⟨r',h',_⟩ := map_eq_ok.mp hr'
  obtain ⟨t,t',hall⟩ := report_unforged (linkedTo_oneLine (by decide))
    (linkedTo_oneLine (by decide)) h h'
  exact ⟨r,r',t,t',h,h',hall⟩

/-- A file name that goes on with the line of an inode. -/
def forgedName : Text := 'a' :: '\n' :: '\t' :: padded 25 CphfId.inode.label ++ "  5".toList

/-- The name alone and the name and the inode of another file are reported alike. -/
theorem report_forged : ∃ r r' t, namesOnly.runReaders (linkedTo forgedName) = .ok r ∧
    namesAndInodes.runReaders (linkedTo ['a']) = .ok r' ∧
    printFiles r.1.attributeFlags r.2 = .ok t ∧ printFiles r'.1.attributeFlags r'.2 = .ok t ∧
    r.2.map CphfFile.entry ≠ r'.2.map CphfFile.entry := by
  have hr : (namesOnly.runReaders (linkedTo forgedName) >>= fun r =>
      printFiles r.1.attributeFlags r.2 >>= fun t => .ok (t,r.2.map CphfFile.entry)) =
      .ok (fileLine CphfId.filename.label ['a'] ++ fileLine CphfId.inode.label ['5'] ++ ['\n'],
        [⟨false,[(.filename,forgedName)]⟩]) := by
    decide +kernel
  have hr' : (namesAndInodes.runReaders (linkedTo ['a']) >>= fun r =>
      printFiles r.1.attributeFlags r.2 >>= fun t => .ok (t,r.2.map CphfFile.entry)) =
      .ok (fileLine CphfId.filename.label ['a'] ++ fileLine CphfId.inode.label ['5'] ++ ['\n'],
        [⟨false,[(.filename,['a']),(.inode,['5'])]⟩]) := by
    decide +kernel
  obtain ⟨r,h,hr⟩ := bind_eq_ok.mp hr
  obtain ⟨t,ht,he⟩ := bind_eq_ok.mp hr
  obtain ⟨r',h',hr'⟩ := bind_eq_ok.mp hr'
  obtain ⟨t',ht',he'⟩ := bind_eq_ok.mp hr'
  obtain ⟨htext,hentries⟩ := Prod.mk.inj (Except.ok.inj he)
  obtain ⟨htext',hentries'⟩ := Prod.mk.inj (Except.ok.inj he')
  refine ⟨r,r',t,h,h',ht,by rw [ht', htext', htext],?_⟩
  rw [hentries, hentries']
  decide

end Cphf
