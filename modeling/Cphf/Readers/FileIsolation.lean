import Cphf.Readers.FileName
import Cphf.Readers.Filtering

/-! Unlike a process, a file gets its attributes from nothing but itself: the entry it has, the
descriptor's path, and what the system answers about that path. -/
namespace Cphf
open CLib

/-- Two snapshots agree on a descriptor's path and on what all files share; they may differ in
every other path, in the users, groups and clocks, and in how long a link may be. -/
structure AgreeAt (path : Text) (sys sys' : System) : Prop where
  stat : sys.stat path = sys'.stat path
  readlink : ∀ round, sys.readlink path round = sys'.readlink path round
  allocates : ∀ round, sys.allocates path round = sys'.allocates path round
  drivers : sys.file "/proc/tty/drivers".toList = sys'.file "/proc/tty/drivers".toList
  localtime : ∀ t, sys.localtime t = sys'.localtime t

section
variable {sys sys' : System} {path : Text}

namespace AgreeAt

/-- Two loops with the same answers, given different numbers of rounds to end in, read the same
target if both end. -/
theorem readFileNameLoop (h : AgreeAt path sys sys') {fuel fuel' round size : ℕ} {b : Block}
    {v w : Text} (hv : Cphf.readFileNameLoop sys path fuel round b size = .ok v)
    (hw : Cphf.readFileNameLoop sys' path fuel' round b size = .ok w) : v = w := by
  induction fuel generalizing fuel' round size b with
  | zero => cases hv
  | succ fuel ih =>
    cases fuel' with
    | zero => cases hw
    | succ fuel' =>
      have hlink : Cphf.readlink sys path round size b = Cphf.readlink sys' path round size b := by
        unfold Cphf.readlink
        rw [h.readlink]
      obtain ⟨r,hr,hv⟩ := bind_eq_ok.mp hv
      obtain ⟨r',hr',hw⟩ := bind_eq_ok.mp hw
      rw [← hlink, hr] at hr'
      cases hr'
      by_cases hfull : r.2 = size
      · rw [if_pos hfull] at hv hw
        obtain ⟨c,hc,hv⟩ := bind_eq_ok.mp hv
        obtain ⟨c',hc',hw⟩ := bind_eq_ok.mp hw
        rw [← h.allocates, hc] at hc'
        cases hc'
        exact ih hv hw
      · rw [if_neg hfull] at hv hw
        exact Except.ok.inj (hv.symm.trans hw)

theorem readFileName (h : AgreeAt path sys sys') {v w : Text}
    (hv : Cphf.readFileName sys path = .ok v) (hw : Cphf.readFileName sys' path = .ok w) :
    v = w := by
  obtain ⟨b,hb,hv⟩ := bind_eq_ok.mp hv
  obtain ⟨b',hb',hw⟩ := bind_eq_ok.mp hw
  rw [← h.allocates, hb] at hb'
  cases hb'
  exact h.readFileNameLoop hv hw

theorem readLocalTime (h : AgreeAt path sys sys') (t : ℤ) (format : Text) :
    Cphf.readLocalTime sys t format = Cphf.readLocalTime sys' t format := by
  unfold Cphf.readLocalTime
  rw [h.localtime]

theorem readDevice (h : AgreeAt path sys sys') (stat : Stat) :
    Cphf.readDevice sys stat = Cphf.readDevice sys' stat := by
  unfold Cphf.readDevice buildDeviceMap
  rw [h.drivers]

/-- Whatever an option reads of the file, it reads the same in both snapshots. -/
theorem read (h : AgreeAt path sys sys') (stat : Stat) {o : FileOption} {v w : Text}
    (hv : o.read sys path stat = .ok v) (hw : o.read sys' path stat = .ok w) : v = w := by
  cases o with
  | name => exact h.readFileName hv hw
  | accessT => exact Except.ok.inj (hv.symm.trans ((h.readLocalTime _ _).trans hw))
  | modT => exact Except.ok.inj (hv.symm.trans ((h.readLocalTime _ _).trans hw))
  | statChangeT => exact Except.ok.inj (hv.symm.trans ((h.readLocalTime _ _).trans hw))
  | device => exact Except.ok.inj (hv.symm.trans ((h.readDevice stat).trans hw))
  | inode | uname | uid | gname | gid | mode | size | perms =>
    exact Except.ok.inj (hv.symm.trans hw)

theorem processOpiton (h : AgreeAt path sys sys') (stat : Stat) {c : Char} {a a' : CphfAttribute}
    (ha : FileStatReader.processOpiton sys c path stat = .ok a)
    (ha' : FileStatReader.processOpiton sys' c path stat = .ok a') : a = a' := by
  obtain ⟨o,rfl,hk,ht⟩ := (FileStatReader.processOpiton_eq_ok sys path stat).mp ha
  obtain ⟨o',hc,hk',ht'⟩ := (FileStatReader.processOpiton_eq_ok sys' path stat).mp ha'
  cases FileOption.char_injective hc
  exact Prod.ext (Option.some.inj (hk.symm.trans hk')) (h.read stat ht ht')

/-- The options a file is asked for gather the same attributes. -/
theorem gathered (h : AgreeAt path sys sys') (stat : Stat) {options : Text}
    {funcs funcs' : ReaderFuncs}
    (hg : gather (fun c => FileStatReader.processOpiton sys c path stat) ∅ options = .ok funcs)
    (hg' : gather (fun c => FileStatReader.processOpiton sys' c path stat) ∅ options = .ok funcs') :
    funcs = funcs' := by
  have hsame : ∀ c ∈ options, FileStatReader.processOpiton sys c path stat =
      FileStatReader.processOpiton sys' c path stat := by
    intro c hc
    obtain ⟨a,ha⟩ := gather_ok_iff.mp ⟨_,hg⟩ c hc
    obtain ⟨a',ha'⟩ := gather_ok_iff.mp ⟨_,hg'⟩ c hc
    rw [ha, ha', h.processOpiton stat ha ha']
  rw [gather_congr hsame, hg'] at hg
  exact (Except.ok.inj hg).symm

end AgreeAt

theorem readFileStatAttributes_agree {T : UInt64} {fid pid : UInt32}
    (h : AgreeAt (formPath T pid fid.toUInt64) sys sys') {options : Text} {u v w : UnlinkedFile}
    (hv : readFileStatAttributes sys T options fid pid u = .ok v)
    (hw : readFileStatAttributes sys' T options fid pid u = .ok w) : v = w := by
  unfold readFileStatAttributes at hv hw
  dsimp only at hv hw
  rw [← h.stat] at hw
  cases hs : sys.stat (formPath T pid fid.toUInt64) with
  | none =>
    rw [hs] at hv hw
    exact Except.ok.inj (hv.symm.trans hw)
  | some stat =>
    rw [hs] at hv hw
    obtain ⟨funcs,hg,he⟩ := bind_eq_ok.mp hv
    cases he
    obtain ⟨funcs',hg',he⟩ := bind_eq_ok.mp hw
    cases he
    rw [FileStatReader.run_collect] at hg hg'
    rw [h.gathered stat hg hg']

end

section
variable {sys sys' : System} {T : UInt64} {options : Text} {m m' r r' : ProcMap}

/-- A file that two stores hold for the same process ends the same in both, whatever else the
stores hold and whatever the snapshots say of other paths. -/
theorem FileStatReader.do_read_isolated (h : do_read sys T options m = .ok r)
    (h' : do_read sys' T options m' = .ok r') (e : ℤ × ℤ) {p p' : ProcFile}
    (hp : m.find? e.1 = some p) (hp' : m'.find? e.1 = some p') (hpid : p.pid = p'.pid)
    {u : UnlinkedFile} (hu : p.ulFiles.find? e.2 = some u) (hu' : p'.ulFiles.find? e.2 = some u)
    (hagree : AgreeAt (formPath T p.pid (asUInt32 e.2).toUInt64) sys sys') :
    fileAt r e = fileAt r' e := by
  obtain ⟨files,hq,hfiles⟩ := do_read_process h hp
  obtain ⟨files',hq',hfiles'⟩ := do_read_process h' hp'
  obtain ⟨v,hv,hr⟩ := hfiles e.2 u hu
  obtain ⟨w,hw,hr'⟩ := hfiles' e.2 u hu'
  rw [← hpid] at hr'
  rw [fileAt, fileAt, hq, hq', Option.bind_some, Option.bind_some, hv, hw,
    readFileStatAttributes_agree hagree hr hr']

end

/-- Only one path is answered for, and no user is known. -/
def onlyAt (path : Text) : System :=
  { answering with
    stat := fun p => if p = path then some default else none
    getpwuid := fun _ => none }

/-- Another process, with a descriptor of its own, beside the one of `oneFile`. -/
def besideOneFile : ProcMap :=
  oneFile.insertNew 2 ((ProcFile.new.addAttribute .pid "2".toList).addFile 5 (UnlinkedFile.new 1024 2 5))

theorem FileStatReader.do_read_isolated_beside : ∃ r r',
    do_read answering 1024 FILESTAT_OPTS_DEFAULT oneFile = .ok r ∧
    do_read (onlyAt "/proc/7/fd/3".toList) 1024 FILESTAT_OPTS_DEFAULT besideOneFile = .ok r' ∧
    fileAt r (7,3) = fileAt r' (7,3) := by
  have hrun : (fun r => r.entries.length) <$>
      do_read answering 1024 FILESTAT_OPTS_DEFAULT oneFile = .ok 1 := by
    decide +kernel
  have hrun' : (fun r => r.entries.length) <$> do_read (onlyAt "/proc/7/fd/3".toList) 1024
      FILESTAT_OPTS_DEFAULT besideOneFile = .ok 2 := by
    decide +kernel
  obtain ⟨r,h,_⟩ := map_eq_ok.mp hrun
  obtain ⟨r',h',_⟩ := map_eq_ok.mp hrun'
  refine ⟨r,r',h,h',?_⟩
  exact do_read_isolated (u := UnlinkedFile.new 1024 7 3) h h' (7,3) rfl rfl rfl
    (by decide +kernel) (by decide +kernel)
    ⟨by decide +kernel,fun _ => rfl,fun _ => rfl,rfl,fun _ => rfl⟩

end Cphf
