import Cphf.Readers.Drivers
import Cphf.Readers.FileName
import Cphf.Readers.StatFile

/-! When the readers get through: what every option they come to needs from the system. A
missing entry, time or block is dereferenced all the same, so each of them has to be there. -/
namespace Cphf
open CLib

/-- The stream of drivers goes on after one of them. -/
def DriverThen (fsin rest : Text) : Prop := ∃ d, readDriver fsin = .ok (some (d,rest))

/-- Each name in the table of drivers that is come to has a front of five characters to cut. -/
def System.driversNamed (sys : System) : Prop :=
  ∀ fsin, sys.file "/proc/tty/drivers".toList = some fsin →
    ∀ rest, Relation.ReflTransGen DriverThen fsin rest → readDriver rest ≠ .error .outOfRange

theorem readDriver_error {fsin : Text} {e : Fault} (h : readDriver fsin = .error e) :
    e = .outOfRange := by
  unfold readDriver at h
  split at h
  · cases h
  · split at h
    · cases h
    · split at h <;> cases h
      rfl

theorem DriverThen.length_lt {fsin rest : Text} (h : DriverThen fsin rest) :
    rest.length < fsin.length := by
  obtain ⟨d,h⟩ := h
  exact (readDriver_eq_ok h).length_lt

theorem buildDeviceMapLoop_completes_iff {n : ℕ} {fsin : Text} (h : fsin.length < n)
    (deviceMap : DeviceMap) : Completes (buildDeviceMapLoop n fsin deviceMap) ↔
      ∀ rest, Relation.ReflTransGen DriverThen fsin rest → readDriver rest ≠ .error .outOfRange := by
  induction n generalizing fsin deviceMap with
  | zero => omega
  | succ n ih =>
    have hsplit : (∀ rest, Relation.ReflTransGen DriverThen fsin rest →
        readDriver rest ≠ .error .outOfRange) ↔ readDriver fsin ≠ .error .outOfRange ∧
          ∀ next, DriverThen fsin next → ∀ rest, Relation.ReflTransGen DriverThen next rest →
            readDriver rest ≠ .error .outOfRange := by
      constructor
      · exact fun h => ⟨h _ .refl,fun next hn rest hr => h _ (.head hn hr)⟩
      · rintro ⟨hd,ht⟩ rest hr
        rcases hr.cases_head with rfl | ⟨next,hn,hr⟩
        · exact hd
        · exact ht next hn rest hr
    rw [hsplit, buildDeviceMapLoop]
    cases hr : readDriver fsin with
    | error e =>
      rw [readDriver_error hr]
      simp
    | ok r =>
      rcases r with _ | ⟨d,rest⟩
      · have hno : ∀ next, ¬ DriverThen fsin next := by
          rintro next ⟨d,hd⟩
          rw [hr] at hd
          cases hd
        simp [hno]
      · have hnext : ∀ next, DriverThen fsin next ↔ next = rest := by
          intro next
          simp [DriverThen, hr, eq_comm]
        have hlt := ((hnext rest).mpr rfl).length_lt
        simp only [hnext, forall_eq, ne_eq, reduceCtorEq, not_false_eq_true, true_and]
        exact ih (by omega) _

theorem buildDeviceMap_completes_iff (sys : System) :
    Completes (buildDeviceMap sys) ↔ sys.driversNamed := by
  unfold buildDeviceMap System.driversNamed
  cases sys.file "/proc/tty/drivers".toList with
  | none => simp
  | some fsin => simpa using buildDeviceMapLoop_completes_iff (Nat.lt_succ_self _) ∅

theorem readDevice_completes_iff (sys : System) (info : Stat) :
    Completes (readDevice sys info) ↔ sys.driversNamed := by
  rw [readDevice, completes_bind_ok, buildDeviceMap_completes_iff]

/-- A time is rendered, or an error text given, exactly when `localtime` has an answer. -/
theorem readLocalTime_completes_iff (sys : System) (t : ℤ) (format : Text) :
    Completes (readLocalTime sys t format) ↔ sys.localtime t ≠ none := by
  unfold readLocalTime
  cases sys.localtime t with
  | none => simp
  | some tm =>
    dsimp only
    cases strftime 30 format tm <;> simp

/-- The seconds at which `readTime` looks up a start time. -/
def startSeconds (sys : System) (boot : ℤ) (start : UInt64) : ℤ :=
  asLong (sys.time - boot + (asLong start.toNat).tdiv sys.clkTck)

/-- What an option of `ProcReader` needs from the system, given the record. -/
def ProcOption.answered (sys : System) (i : ProcInfo) : ProcOption → Prop
  | .username | .uid => i.pw ≠ none ∨ sys.getpwuid i.info.st_uid ≠ none
  | .ugidName | .ugid => i.gr ≠ none ∨ sys.getgrgid i.info.st_gid ≠ none
  | .startTime => ∀ boot, timeSinceBoot sys = some boot →
      sys.localtime (startSeconds sys boot i.starttime) ≠ none
  | .device => sys.driversNamed
  | _ => True

/-- What an option of `FileStatReader` needs from the system. -/
def FileOption.answered (sys : System) (path : Text) (stat : Stat) : FileOption → Prop
  | .name => sys.grants path 0
  | .accessT => sys.localtime stat.st_atime ≠ none
  | .modT => sys.localtime stat.st_mtime ≠ none
  | .statChangeT => sys.localtime stat.st_ctime ≠ none
  | .device => sys.driversNamed
  | _ => True

lemma lookedUp_completes_iff {α : Type} {fault : Fault} {render : α → Text} {a b : Option α} :
    Completes (lookedUp fault render (a.or b)) ↔ a ≠ none ∨ b ≠ none := by
  cases a <;> cases b <;> simp [lookedUp]

theorem ProcOption.text_completes_iff (sys : System) (i : ProcInfo) (o : ProcOption) :
    Completes (o.text sys i) ↔ o.answered sys i := by
  cases o with
  | username => rw [text_username, lookedUp_completes_iff]; rfl
  | uid => rw [text_uid, lookedUp_completes_iff]; rfl
  | ugidName => rw [text_ugidName, lookedUp_completes_iff]; rfl
  | ugid => rw [text_ugid, lookedUp_completes_iff]; rfl
  | startTime =>
    rw [text_startTime]
    unfold readStartTime answered startSeconds
    cases timeSinceBoot sys with
    | none => simp
    | some boot =>
      dsimp only
      rw [readLocalTime_completes_iff]
      simp
  | device => rw [text_device, readDevice_completes_iff]; rfl
  | command | ppid | procgid | cpuTime | state | vms | rms | memText | memData | memStack
  | instPtr | perms => exact iff_of_true ⟨_,rfl⟩ trivial

theorem FileOption.read_completes_iff (sys : System) (path : Text) (stat : Stat) (o : FileOption) :
    Completes (o.read sys path stat) ↔ o.answered sys path stat := by
  cases o with
  | name => exact readFileName_completes_iff sys path
  | accessT => exact readLocalTime_completes_iff sys stat.st_atime _
  | modT => exact readLocalTime_completes_iff sys stat.st_mtime _
  | statChangeT => exact readLocalTime_completes_iff sys stat.st_ctime _
  | device => exact readDevice_completes_iff sys stat
  | inode | uname | uid | gname | gid | mode | size | perms => exact iff_of_true ⟨_,rfl⟩ trivial

/-- Option strings of known characters complete exactly when their options do. -/
theorem ProcReader.gather_completes_iff {sys : System} {i : ProcInfo} {options : Text}
    (hs : ∀ c ∈ options, c ∈ PROC_OPTS_DEFAULT) : Completes (gather (entry sys i) ∅ options) ↔
      ∀ o : ProcOption, o.char ∈ options → o.answered sys i := by
  rw [Completes, gather_ok_iff]
  constructor
  · intro h o ho
    obtain ⟨a,ha⟩ := h _ ho
    rw [← ProcOption.text_completes_iff]
    obtain ⟨o',hc,_,ht⟩ := (entry_eq_ok sys i).mp ha
    rw [ProcOption.char_injective hc]
    exact ⟨_,ht⟩
  · intro h c hc
    obtain ⟨o,rfl⟩ := ProcOption.exists_char (hs c hc)
    obtain ⟨t,ht⟩ := (ProcOption.text_completes_iff sys i o).mpr (h o hc)
    exact ⟨(o.attribID,t),(entry_eq_ok sys i).mpr ⟨o,rfl,rfl,ht⟩⟩

theorem FileStatReader.gather_completes_iff {sys : System} {path : Text} {stat : Stat}
    {options : Text} (hs : ∀ c ∈ options, c ∈ FILESTAT_OPTS_DEFAULT) :
    Completes (gather (fun c => processOpiton sys c path stat) ∅ options) ↔
      ∀ o : FileOption, o.char ∈ options → o.answered sys path stat := by
  rw [Completes, gather_ok_iff]
  constructor
  · intro h o ho
    obtain ⟨a,ha⟩ := h _ ho
    rw [← FileOption.read_completes_iff]
    obtain ⟨o',hc,_,ht⟩ := (processOpiton_eq_ok sys path stat).mp ha
    rw [FileOption.char_injective hc]
    exact ⟨_,ht⟩
  · intro h c hc
    obtain ⟨o,rfl,k,hk⟩ := FileOption.exists_char (hs c hc)
    obtain ⟨t,ht⟩ := (FileOption.read_completes_iff sys path stat o).mpr (h o hc)
    exact ⟨(k,t),(processOpiton_eq_ok sys path stat).mpr ⟨o,rfl,hk,ht⟩⟩

/-- The record that goes on to the next process. -/
def ProcInfo.next (sys : System) (options : Text) (i : ProcInfo) (key : ℤ) : ProcInfo :=
  match sys.stat (exePath sys (asUInt32 key)) with
  | none => afterStatFile sys (asUInt32 key) i
  | some info => (i.forProcess sys (asUInt32 key) info).afterOptions sys options

/-- A process is skipped or its options get what they need. -/
def ProcInfo.answeredFor (sys : System) (options : Text) (i : ProcInfo) (key : ℤ) : Prop :=
  ∀ info, sys.stat (exePath sys (asUInt32 key)) = some info →
    ∀ o : ProcOption, o.char ∈ options → o.answered sys (i.forProcess sys (asUInt32 key) info)

theorem ProcReader.visit_next {sys : System} {options : Text} {st st' : ProcLoop} {key : ℤ}
    {proc proc' : ProcFile} (h : visit sys options st key proc = .ok (st',proc')) :
    st'.info = st.info.next sys options key := by
  rw [visit_eq] at h
  unfold ProcInfo.next
  cases hstat : sys.stat (exePath sys (asUInt32 key)) with
  | none =>
    rw [hstat] at h
    cases h
    rfl
  | some info =>
    rw [hstat] at h
    obtain ⟨funcs,_,he⟩ := bind_eq_ok.mp h
    cases he
    rfl

theorem ProcReader.visit_completes_iff {sys : System} {options : Text} {st : ProcLoop} {key : ℤ}
    {proc : ProcFile} (hs : ∀ c ∈ options, c ∈ PROC_OPTS_DEFAULT) :
    Completes (visit sys options st key proc) ↔ st.info.answeredFor sys options key := by
  rw [visit_eq]
  unfold ProcInfo.answeredFor
  cases sys.stat (exePath sys (asUInt32 key)) with
  | none => simp
  | some info =>
    dsimp only
    rw [completes_bind_ok, gather_completes_iff hs]
    simp

/-- Every process in turn, with the record the ones before it left, is skipped or gets what its
options need. -/
def ProcsAnswered (sys : System) (options : Text) (fresh : ProcInfo) (procMap : ProcMap) : Prop :=
  Visits (ProcInfo.next sys options) (fun i key _ => i.answeredFor sys options key) fresh
    procMap.entries

theorem ProcReader.do_read_completes_iff {sys : System} {fresh : ProcInfo} {options : Text}
    {procMap : ProcMap} (hs : ∀ c ∈ options, c ∈ PROC_OPTS_DEFAULT) :
    Completes (do_read sys fresh options procMap) ↔ ProcsAnswered sys options fresh procMap := by
  rw [do_read, completes_bind_ok, OMap.completes_traverse]
  have hvisit : ∀ st key p, Completes (visit sys options st key p) ↔
      st.info.answeredFor sys options key := fun _ _ _ => visit_completes_iff hs
  exact traverse_completes_iff hvisit fun _ _ _ _ _ => visit_next

/-- Every file that can be examined gets what its options need. -/
def FilesAnswered (sys : System) (ULF_TXT_FD : UInt64) (options : Text) (procMap : ProcMap) :
    Prop :=
  ∀ k p, procMap.find? k = some p → ∀ j u, p.ulFiles.find? j = some u →
    let path := formPath ULF_TXT_FD p.pid (asUInt32 j).toUInt64
    ∀ stat, sys.stat path = some stat → ∀ o : FileOption, o.char ∈ options →
      o.answered sys path stat

theorem readFileStatAttributes_completes_iff {sys : System} {T : UInt64} {options : Text}
    {fid pid : UInt32} {ulf : UnlinkedFile} (hs : ∀ c ∈ options, c ∈ FILESTAT_OPTS_DEFAULT) :
    Completes (readFileStatAttributes sys T options fid pid ulf) ↔
      ∀ stat, sys.stat (formPath T pid fid.toUInt64) = some stat →
        ∀ o : FileOption, o.char ∈ options → o.answered sys (formPath T pid fid.toUInt64) stat := by
  unfold readFileStatAttributes
  dsimp only
  cases sys.stat (formPath T pid fid.toUInt64) with
  | none => simp
  | some stat =>
    dsimp only
    rw [completes_bind_ok, FileStatReader.run_collect, FileStatReader.gather_completes_iff hs]
    simp

/-- A traversal without a state completes exactly when every visit does. -/
lemma traverse_unit_completes_iff {κ ν μ : Type} [LinearOrder κ] {m : OMap κ ν}
    {f : κ → ν → Except Fault μ} :
    Completes (m.traverse (fun (_ : Unit) k v => (fun w => ((),w)) <$> f k v) ()) ↔
      ∀ k v, m.find? k = some v → Completes (f k v) := by
  rw [OMap.completes_traverse, @traverse_completes_iff _ _ _ _ _ _ _ id (fun t _ => t)
    (fun _ k v => Completes (f k v)) (fun _ _ _ => completes_map) fun _ _ _ _ _ _ => rfl,
    visits_const]
  simp only [Prod.forall, OMap.mem_entries]

theorem FileStatReader.do_read_completes_iff {sys : System} {T : UInt64} {options : Text}
    {procMap : ProcMap} (hs : ∀ c ∈ options, c ∈ FILESTAT_OPTS_DEFAULT) :
    Completes (do_read sys T options procMap) ↔ FilesAnswered sys T options procMap := by
  rw [do_read, completes_bind_ok, traverse_unit_completes_iff]
  refine forall_congr' fun k => forall_congr' fun p => imp_congr_right fun _ => ?_
  rw [ProcFile.addFileAttributes, completes_bind_ok, traverse_unit_completes_iff]
  exact forall_congr' fun j => forall_congr' fun u => imp_congr_right fun _ =>
    readFileStatAttributes_completes_iff hs

/-- The reader gets through: every process whose program can be examined is given an attribute
for every option. -/
def ProcReader.ReadsAll (sys : System) (fresh : ProcInfo) (options : Text) (procMap : ProcMap) :
    Prop :=
  ∃ out m, do_read sys fresh options procMap = .ok (out,m) ∧
    ∀ k p, procMap.find? k = some p → sys.stat (exePath sys (asUInt32 k)) ≠ none →
      ∃ q, m.find? k = some q ∧ ∀ o : ProcOption, o.char ∈ options →
        ∃ v, (o.attribID,v) ∈ q.attributes

/-- The reader gets through: every file that can be examined is given an attribute for every
option. -/
def FileStatReader.ReadsAll (sys : System) (ULF_TXT_FD : UInt64) (options : Text)
    (procMap : ProcMap) : Prop :=
  ∃ m, do_read sys ULF_TXT_FD options procMap = .ok m ∧
    ∀ k p, procMap.find? k = some p → ∀ j u, p.ulFiles.find? j = some u →
      sys.stat (formPath ULF_TXT_FD p.pid (asUInt32 j).toUInt64) ≠ none →
        ∃ u', fileAt m (k,j) = some u' ∧ ∀ o : FileOption, o.char ∈ options →
          ∀ i, o.attribID = some i → ∃ v, (i,v) ∈ u'.attributes

/-- A gathering holds an entry of every item. -/
lemma gathered {α : Type} {entry : α → Except Fault CphfAttribute} (hf : Functional entry)
    {l : List α} {m : ReaderFuncs} (h : gather entry ∅ l = .ok m) {a : α} (ha : a ∈ l) :
    ∃ k v, entry a = .ok (k,v) ∧ (k,v) ∈ m.entries := by
  obtain ⟨⟨k,v⟩,he⟩ := gather_ok_iff.mp ⟨m,h⟩ a ha
  exact ⟨k,v,he,OMap.mem_entries.mpr ((find?_gather hf h k v).mpr ⟨a,ha,he⟩)⟩

theorem ProcReader.readsAll_iff {sys : System} {fresh : ProcInfo} {options : Text}
    {procMap : ProcMap} : ReadsAll sys fresh options procMap ↔
      Completes (do_read sys fresh options procMap) := by
  refine ⟨fun ⟨out,m,h,_⟩ => ⟨_,h⟩,?_⟩
  rintro ⟨⟨out,m⟩,h⟩
  refine ⟨_,_,h,fun k p hp hstat => ?_⟩
  obtain ⟨info,hinfo⟩ := Option.ne_none_iff_exists'.mp hstat
  obtain ⟨q,hq,st,st',hv⟩ := do_read_process h hp
  rw [visit_eq, hinfo] at hv
  obtain ⟨funcs,hg,he⟩ := bind_eq_ok.mp hv
  cases he
  refine ⟨_,hq,fun o ho => ?_⟩
  obtain ⟨i,v,hi,hm⟩ := gathered (entry_functional sys _) hg ho
  obtain ⟨o',hc,hk,_⟩ := (entry_eq_ok sys _).mp hi
  rw [ProcOption.char_injective hc, ← hk, ProcFile.addAttributes_attributes]
  exact ⟨v,mem_arranged.mpr (.inr hm)⟩

theorem FileStatReader.readsAll_iff {sys : System} {T : UInt64} {options : Text}
    {procMap : ProcMap} : ReadsAll sys T options procMap ↔
      Completes (do_read sys T options procMap) := by
  refine ⟨fun ⟨m,h,_⟩ => ⟨_,h⟩,?_⟩
  rintro ⟨m,h⟩
  refine ⟨m,h,fun k p hp j u hu hstat => ?_⟩
  obtain ⟨stat,hs⟩ := Option.ne_none_iff_exists'.mp hstat
  obtain ⟨files,hq,hfiles⟩ := do_read_process h hp
  obtain ⟨u',hu',hr⟩ := hfiles j u hu
  unfold readFileStatAttributes at hr
  dsimp only at hr
  rw [hs] at hr
  obtain ⟨funcs,hg,he⟩ := bind_eq_ok.mp hr
  cases he
  rw [run_collect] at hg
  refine ⟨u.addAttributes funcs.entries,by simp [fileAt, hq, hu'],fun o ho i hi => ?_⟩
  obtain ⟨i',v,hj,hm⟩ := gathered (processOpiton_functional sys _ stat) hg ho
  obtain ⟨o',hc,hi',_⟩ := (processOpiton_eq_ok sys _ stat).mp hj
  rw [FileOption.char_injective hc, hi'] at hi
  rw [← Option.some.inj hi, UnlinkedFile.addAttributes_attributes]
  exact ⟨v,mem_arranged.mpr (.inr hm)⟩

/-- The readers get through all processes and files, whatever known options they are given,
exactly when every entry, time and block that is asked for is there. -/
theorem readsAll_iff_answered (sys : System) (fresh : ProcInfo) (ULF_TXT_FD : UInt64)
    (procMap : ProcMap) {proc_ops file_ops : Text} (hp : ∀ c ∈ proc_ops, c ∈ PROC_OPTS_DEFAULT)
    (hf : ∀ c ∈ file_ops, c ∈ FILESTAT_OPTS_DEFAULT) :
    (ProcReader.ReadsAll sys fresh proc_ops procMap ↔
      ProcsAnswered sys proc_ops fresh procMap) ∧
    (FileStatReader.ReadsAll sys ULF_TXT_FD file_ops procMap ↔
      FilesAnswered sys ULF_TXT_FD file_ops procMap) := by
  rw [ProcReader.readsAll_iff, FileStatReader.readsAll_iff]
  exact ⟨ProcReader.do_read_completes_iff hp,FileStatReader.do_read_completes_iff hf⟩

/-- A user's file of the first of July 2015, midnight. -/
def julyFile : Stat :=
  ⟨0x801,0,12,0o100644,1000,100,4096,1435708800,1435708800,1435708800⟩

/-- A system with everything that is asked for about process 7 and its descriptor 3, booted at
that time. -/
def supplied : System :=
  { answering with
    file := fun path =>
      if path = procPath 7 "stat".toList then
        some ("7 (sh) S 1 7 7 34817 7 4194304 1 2 3 4 11 12 13 14 20 0 1 0 25 5555 44 3333 " ++
          "1024 2048 150000 149000 148000 0 0 0 0 0 0 0 17 2 0 0 0 0 0 3000 3500 3600").toList
      else if path = procPath 7 "cmdline".toList then some "sh\x00-c\x00".toList
      else if path = "/proc/uptime".toList then some "100.25 50.00".toList
      else if path = "/proc/tty/drivers".toList then
        some "serial /dev/ttyS 4 64-95 serial\npty_slave /dev/pts 136 0-1048575 pty:slave\n".toList
      else none
    stat := fun path =>
      if path = procPath 7 "exe".toList ∨ path = procPath 7 "fd/3".toList then some julyFile
      else none
    readlink := fun _ n => some ("/tmp/notes (deleted)".toList.take n)
    linkMax := 20
    readlink_le := fun _ n _ h => Option.some.inj h ▸ List.length_take_le' n _
    localtime := fun t => if t = 1435708800 then some (july "UTC".toList) else none
    time := 1435708900 }

lemma supplied_stat {path : Text} {stat : Stat} (h : supplied.stat path = some stat) :
    stat = julyFile := by
  unfold supplied at h
  dsimp only at h
  split at h
  · exact (Option.some.inj h).symm
  · cases h

lemma supplied_drivers : supplied.driversNamed := by
  have hok : readDevice supplied julyFile = .ok "8,1\t?".toList := by decide +kernel
  exact (readDevice_completes_iff supplied julyFile).mp ⟨_,hok⟩

lemma supplied_answered {o : ProcOption} (h : o ≠ .startTime) (i : ProcInfo) :
    o.answered supplied i := by
  cases o with
  | username | uid | ugidName | ugid => exact .inr (Option.some_ne_none _)
  | startTime => exact absurd rfl h
  | device => exact supplied_drivers
  | command | ppid | procgid | cpuTime | state | vms | rms | memText | memData | memStack
  | instPtr | perms => trivial

lemma supplied_procs : ProcsAnswered supplied PROC_OPTS_DEFAULT default oneFile := by
  refine ⟨fun info hinfo o _ => ?_,trivial⟩
  rw [supplied_stat hinfo]
  by_cases ho : o = .startTime
  · have hboot : timeSinceBoot supplied = some 100 := by decide +kernel
    have hstart : ((default : ProcInfo).forProcess supplied (asUInt32 7) julyFile).starttime = 25 := by
      decide +kernel
    subst ho
    intro boot hb
    cases hboot.symm.trans hb
    rw [hstart]
    decide +kernel
  · exact supplied_answered ho _

lemma supplied_files (T : UInt64) (options : Text) (m : ProcMap) :
    FilesAnswered supplied T options m := by
  intro k p _ j u _ path stat hstat o _
  rw [supplied_stat hstat]
  cases o with
  | name => exact fun _ _ _ => rfl
  | accessT | modT | statChangeT =>
    have hjuly : supplied.localtime 1435708800 ≠ none := by decide +kernel
    exact hjuly
  | device => exact supplied_drivers
  | inode | uname | uid | gname | gid | mode | size | perms => trivial

theorem readsAll_one :
    ProcReader.ReadsAll supplied default PROC_OPTS_DEFAULT oneFile ∧
      FileStatReader.ReadsAll supplied 1024 FILESTAT_OPTS_DEFAULT oneFile := by
  have h := @readsAll_iff_answered supplied default 1024 oneFile PROC_OPTS_DEFAULT
    FILESTAT_OPTS_DEFAULT (fun _ hc => hc) (fun _ hc => hc)
  exact ⟨h.1.mpr supplied_procs,h.2.mpr (supplied_files _ _ _)⟩

/-- A system in which nobody owns the program of process 7. -/
def ownerless : System :=
  { (default : System) with
    file := fun path => if path = procPath 7 "stat".toList then
      some "7 (sh) S 1 7 7 34817 7 4194304 1 2 3 4 11 12 13 14 20 0 1 0 25 5555 44 3333".toList
      else none
    stat := fun path => if path = procPath 7 "exe".toList then some julyFile else none }

/-- A process whose owner has no entry: the null pointer is dereferenced. -/
theorem not_readsAll_ownerless :
    (∀ c ∈ "u".toList, c ∈ PROC_OPTS_DEFAULT) ∧
      ¬ ProcReader.ReadsAll ownerless default "u".toList oneFile := by
  have h : Prod.fst <$> ProcReader.do_read ownerless default "u".toList oneFile =
      .error .nullPasswd := by decide +kernel
  refine ⟨accepted_of_all (by decide),?_⟩
  rintro ⟨out,m,hm,_⟩
  rw [hm] at h
  cases h

end Cphf
