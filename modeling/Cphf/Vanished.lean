import Cphf.CLib.Lockstep
import Cphf.Queue

/-! Processes that end between the listing and the reading. A process of which nothing is left
in `/proc` keeps what `lsof` gave it, and to everything else it makes no difference that it was
listed. -/
namespace Cphf
open CLib

/-- Nothing is left of a process: no stat file, no program and no descriptor. -/
structure Gone (sys : System) (pid : UInt32) : Prop where
  stat : sys.file (procPath pid "stat".toList) = none
  exe : sys.stat (exePath sys pid) = none
  paths : ∀ name, sys.stat (procPath pid name) = none

section
variable {sys : System} {pid : UInt32} {options : Text}

theorem Gone.formPath (h : Gone sys pid) (T fid : UInt64) :
    sys.stat (Cphf.formPath T pid fid) = none := by
  unfold Cphf.formPath
  split_ifs
  · exact h.paths "exe".toList
  · rw [← h.paths ("fd/".toList ++ decimal fid.toNat)]
    rfl

/-- The visit of such a process prints nothing and leaves the record and the process alone. -/
theorem Gone.visit {key : ℤ} (h : Gone sys (asUInt32 key)) (st : ProcLoop) (p : ProcFile) :
    ProcReader.visit sys options st key p = .ok (st,p) := by
  rw [ProcReader.visit_eq, h.exe]
  unfold afterStatFile statMessage
  rw [h.stat]
  dsimp only
  rw [List.append_nil]

theorem Gone.addFileAttributes {p : ProcFile} (h : Gone sys p.pid) (T : UInt64) :
    p.addFileAttributes (readFileStatAttributes sys T options) = .ok p := by
  apply ProcFile.addFileAttributes_ok.mpr
  refine ⟨p.ulFiles,OMap.traverse_ok.mpr (traverse_self (fun e _ _ => ?_) ()),rfl⟩
  have hread : readFileStatAttributes sys T options (p.passedOn e.1).1 (p.passedOn e.1).2 e.2 =
      .ok e.2 := by
    unfold readFileStatAttributes
    dsimp only [ProcFile.passedOn]
    rw [h.formPath]
  rw [hread]
  rfl

end

/-- What has been built, less the processes that are not kept. -/
def Built.keeping (keep : ℤ → Bool) (b : Built) : Built :=
  { b with procMap := b.procMap.filter keep }

section
variable {sys : System} {options : Text} {keep : ℤ → Bool} {m : ProcMap}

theorem ProcReader.do_read_gone (h : ∀ key, keep key = false → Gone sys (asUInt32 key))
    (fresh : ProcInfo) : (fun r => (r.1,r.2.filter keep)) <$> do_read sys fresh options m =
      do_read sys fresh options (m.filter keep) := by
  unfold do_read
  rw [← OMap.traverse_filter fun key p _ hk st => (h key hk).visit st p]
  cases m.traverse (visit sys options) ⟨fresh,[]⟩ <;> rfl

theorem FileStatReader.do_read_gone (h : ∀ key, keep key = false → Gone sys (asUInt32 key))
    (hm : m.Filed) (T : UInt64) : (·.filter keep) <$> do_read sys T options m =
      do_read sys T options (m.filter keep) := by
  unfold do_read
  rw [← OMap.traverse_filter fun key p hp hk _ => ?_]
  · cases m.traverse (fun _ _ proc => (fun p => ((),p)) <$>
      proc.addFileAttributes (readFileStatAttributes sys T options)) () <;> rfl
  · have hpid := (hm key p hp).atKey.pid
    rw [Gone.addFileAttributes (hpid ▸ h key hk)]
    rfl

end

section
variable {env : Surroundings} {keep : ℤ → Bool} {b b' : Built}

theorem Built.dig_gone {ddig : DataDigger} (hd : ddig.1 ≠ .lsof)
    (h : ∀ key, keep key = false → Gone env.sys (asUInt32 key)) (hb : b.procMap.Filed) :
    keeping keep <$> b.dig env ddig = (b.keeping keep).dig env ddig := by
  obtain ⟨reader,options⟩ := ddig
  cases reader with
  | lsof => exact absurd rfl hd
  | proc =>
    unfold dig keeping
    dsimp only
    rw [← ProcReader.do_read_gone h]
    cases ProcReader.do_read env.sys env.fresh options b.procMap <;> rfl
  | filestat =>
    unfold dig keeping
    dsimp only
    rw [← FileStatReader.do_read_gone h hb]
    cases FileStatReader.do_read env.sys env.ULF_TXT_FD options b.procMap <;> rfl

/-- A reader leaves a process of which nothing is left as it is. -/
theorem Built.dig_keeps {ddig : DataDigger} (hd : ddig.1 ≠ .lsof) {key : ℤ}
    (h : Gone env.sys (asUInt32 key)) (hb : b.procMap.Filed) (hr : b.dig env ddig = .ok b')
    {p : ProcFile} (hp : b.procMap.find? key = some p) : b'.procMap.find? key = some p := by
  obtain ⟨reader,options⟩ := ddig
  cases reader with
  | lsof => exact absurd rfl hd
  | proc =>
    obtain ⟨r,hread,he⟩ := bind_eq_ok.mp hr
    cases he
    obtain ⟨q,hq,st,st',hv⟩ := ProcReader.do_read_process hread hp
    rw [h.visit] at hv
    cases hv
    exact hq
  | filestat =>
    obtain ⟨m,hread,he⟩ := bind_eq_ok.mp hr
    cases he
    obtain ⟨q,hq,hadd⟩ := FileStatReader.do_read_added hread hp
    have hpid := (hb key p hp).atKey.pid
    rw [Gone.addFileAttributes (hpid ▸ h)] at hadd
    cases hadd
    exact hq

/-- Whatever readers follow `lsof`, they come to the same end, with the same texts printed and the
same processes and files, when the processes of which nothing is left had not been listed; and
these keep what they were listed with. -/
theorem run_dig_gone {diggers : List DataDigger} (hd : ∀ d ∈ diggers, d.1 ≠ .lsof)
    (h : ∀ key, keep key = false → Gone env.sys (asUInt32 key)) (hb : b.procMap.Filed) :
    Built.keeping keep <$> run (Built.dig env) b diggers =
        run (Built.dig env) (b.keeping keep) diggers ∧
      ∀ b', run (Built.dig env) b diggers = .ok b' → ∀ key p, keep key = false →
        b.procMap.find? key = some p → b'.procMap.find? key = some p := by
  induction diggers generalizing b with
  | nil =>
    refine ⟨rfl,fun b' hr key p _ hp => ?_⟩
    cases hr
    exact hp
  | cons d l ih =>
    obtain ⟨hd₁,hl⟩ := List.forall_mem_cons.mp hd
    have hstep := Built.dig_gone hd₁ h hb
    rw [run_cons, run_cons, ← hstep]
    cases hb₁ : b.dig env d with
    | error e => exact ⟨rfl,fun b' hr => by cases hr⟩
    | ok b₁ =>
      obtain ⟨hsame,hkeeps⟩ := ih hl (Built.dig_filed hb hb₁)
      refine ⟨hsame,fun b' hr key p hk hp => ?_⟩
      exact hkeeps b' hr key p hk (Built.dig_keeps hd₁ (h key hk) hb hb₁ hp)

end

/-- Of two processes that were listed the first one is gone. -/
def firstGone : Surroundings where
  rlim_max := some 1024
  lsof := .output "p1\nf3\np2\nf4\n".toList
  sys :=
    { answering with
      stat := fun path => if "/proc/2/".toList.isPrefixOf path then some default else none }
  fresh := default

lemma firstGone_gone : ∀ key : ℤ, decide (key ≠ 1) = false →
    Gone firstGone.sys (asUInt32 key) := by
  intro key hk
  have hkey : key = 1 := by simpa using hk
  subst hkey
  exact ⟨rfl,rfl,fun name => rfl⟩

theorem run_dig_gone_first : ∃ b b' p, Built.init.dig firstGone (.lsof,"pfg".toList) = .ok b ∧
    run (Built.dig firstGone) b [(.filestat,"n".toList),(.proc,"cU".toList)] = .ok b' ∧
    run (Built.dig firstGone) (b.keeping (· ≠ 1)) [(.filestat,"n".toList),(.proc,"cU".toList)] =
      .ok (b'.keeping (· ≠ 1)) ∧
    b.procMap.find? 1 = some p ∧ b'.procMap.find? 1 = some p := by
  have hrun : (fun b : Built => (b.procMap.find? 1).isSome) <$>
      Built.init.dig firstGone (.lsof,"pfg".toList) = .ok true := by
    decide +kernel
  obtain ⟨b,hb,hsome⟩ := map_eq_ok.mp hrun
  obtain ⟨p,hp⟩ := Option.isSome_iff_exists.mp hsome
  have hrun' : (fun b : Built => b.procMap.entries.length) <$> run (Built.dig firstGone) Built.init
      [(.lsof,"pfg".toList),(.filestat,"n".toList),(.proc,"cU".toList)] = .ok 2 := by
    decide +kernel
  obtain ⟨b',hb',_⟩ := map_eq_ok.mp hrun'
  rw [run_cons, hb, ok_bind] at hb'
  have hreaders : ∀ d ∈ [((.filestat,"n".toList) : DataDigger),(.proc,"cU".toList)],
      d.1 ≠ .lsof := by decide
  obtain ⟨hsame,hkeeps⟩ := run_dig_gone hreaders firstGone_gone
    (Built.dig_filed (b := Built.init) OMap.each_empty hb)
  rw [hb'] at hsame
  exact ⟨b,b',p,hb,hb',hsame.symm,hp,hkeeps b' hb' 1 p rfl hp⟩

end Cphf
