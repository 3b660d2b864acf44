import Cphf.Readers.NullSafety

/-! Choosing attributes is filtering: a run with some of the default options gives every
object the attributes of the run with all of them, less those not chosen. It is so exactly when
the run with all of them gets through; what order and number of the options do is seen from the
smaller run alone. -/
namespace Cphf
open CLib

/-- The identifier is set by one of the options. -/
def ProcOption.chosen (options : Text) (k : CphfId) : Bool :=
  ProcOption.all.any fun o => o.attribID = k && options.contains o.char

def FileOption.chosen (options : Text) (k : CphfId) : Bool :=
  FileOption.all.any fun o => o.attribID = some k && options.contains o.char

theorem ProcOption.chosen_iff {options : Text} {k : CphfId} :
    chosen options k = true ↔ ∃ o : ProcOption, o.attribID = k ∧ o.char ∈ options := by
  have hall : ∀ o : ProcOption, o ∈ all := by intro o; cases o <;> decide
  simp [chosen, hall]

theorem FileOption.chosen_iff {options : Text} {k : CphfId} :
    chosen options k = true ↔ ∃ o : FileOption, o.attribID = some k ∧ o.char ∈ options := by
  have hall : ∀ o : FileOption, o ∈ all := by intro o; cases o <;> decide
  simp [chosen, hall]

/-- Between a run with all options and one with some of them, the records differ at most in
lookups that the latter does not make. -/
structure SameRecord (options : Text) (d s : ProcInfo) : Prop where
  rest : s = { d with pw := s.pw, gr := s.gr }
  pw : usesPw options = true → s.pw = d.pw
  gr : usesGr options = true → s.gr = d.gr

section
variable {sys : System} {options : Text} {d s : ProcInfo}

theorem SameRecord.afterStatFile (h : SameRecord options d s) (pid : UInt32) :
    SameRecord options (afterStatFile sys pid d) (afterStatFile sys pid s) := by
  unfold Cphf.afterStatFile
  cases sys.file (procPath pid "stat".toList) with
  | none => exact h
  | some fin =>
    refine ⟨?_,fun _ => rfl,fun _ => rfl⟩
    dsimp only
    rw [h.rest, storeAll_lookups]

theorem SameRecord.forProcess (h : SameRecord options d s) (pid : UInt32) (info : Stat) :
    SameRecord options (d.forProcess sys pid info) (s.forProcess sys pid info) := by
  have ha : SameRecord options (Cphf.afterStatFile sys pid d) (Cphf.afterStatFile sys pid s) :=
    h.afterStatFile pid
  refine ⟨?_,ha.pw,ha.gr⟩
  unfold ProcInfo.forProcess
  rw [ha.rest]

theorem SameRecord.afterOptions (h : SameRecord options d s) :
    SameRecord options (d.afterOptions sys PROC_OPTS_DEFAULT) (s.afterOptions sys options) := by
  have hpw : usesPw PROC_OPTS_DEFAULT = true := by decide
  have hgr : usesGr PROC_OPTS_DEFAULT = true := by decide
  unfold ProcInfo.afterOptions
  constructor
  · dsimp only
    rw [h.rest]
  · intro hu
    simp only [hu, hpw, if_true, h.pw hu]
    rw [h.rest]
  · intro hu
    simp only [hu, hgr, if_true, h.gr hu]
    rw [h.rest]

/-- Such records give the options of the smaller run the same attributes. -/
theorem SameRecord.entry (h : SameRecord options d s) {c : Char} (hc : c ∈ options) :
    ProcReader.entry sys s c = ProcReader.entry sys d c := by
  unfold ProcReader.entry
  cases ho : ProcOption.ofChar c with
  | none => rfl
  | some o =>
    rw [ProcOption.ofChar_eq_some] at ho
    subst ho
    have hpw : o.char = 'U' ∨ o.char = 'u' → s.pw = d.pw := fun hU =>
      h.pw (List.any_eq_true.mpr ⟨o.char,hc,by simpa using hU⟩)
    have hgr : o.char = 'G' ∨ o.char = 'g' → s.gr = d.gr := fun hG =>
      h.gr (List.any_eq_true.mpr ⟨o.char,hc,by simpa using hG⟩)
    have ht : o.text sys s = o.text sys d := by
      rw [h.rest]
      cases o with
      | username => simp only [ProcOption.text_username, hpw (.inl rfl)]
      | uid => simp only [ProcOption.text_uid, hpw (.inr rfl)]
      | ugidName => simp only [ProcOption.text_ugidName, hgr (.inl rfl)]
      | ugid => simp only [ProcOption.text_ugid, hgr (.inr rfl)]
      | startTime => rw [ProcOption.text_startTime, ProcOption.text_startTime]
      | device => rw [ProcOption.text_device, ProcOption.text_device]
      | command | ppid | procgid | cpuTime | state | vms | rms | memText | memData | memStack
      | instPtr | perms => rfl
    simp only [ht]

end

/-- An attribute list entered with, and the lists two runs leave: the second is the first less
the attributes not kept, and both ascend. -/
def FilteredFrom (keep : CphfId → Bool) (all some : List CphfAttribute) : Prop :=
  some = all.filter (fun a => keep a.1) ∧ Ascending all ∧ Ascending some

/-- Attributes arranged around those entered with, and the same of a filtered map. -/
theorem filteredFrom_arranged {front : CphfId} {old : List CphfAttribute} {funcs : ReaderFuncs}
    {p keep : CphfId → Bool} (hkeep : ∀ k, k ∈ funcs.entries.map Prod.fst → keep k = p k)
    (hold : ∀ a ∈ old, keep a.1 = true) (ho : Ascending old) (hfo : ∀ a ∈ old, front < a.1)
    (hnew : ∀ b ∈ funcs.entries, b.1 ≠ front → front < b.1 ∧ ∀ a ∈ old, a.1 < b.1) :
    FilteredFrom keep (arranged front old funcs.entries)
      (arranged front old (funcs.filter p).entries) := by
  have hf : (funcs.filter p).entries = funcs.entries.filter fun a => keep a.1 :=
    List.filter_congr fun a ha => (hkeep a.1 (List.mem_map_of_mem ha)).symm
  have hs : ∀ l, l.Sublist funcs.entries → Ascending l → Ascending (arranged front old l) :=
    fun l hl ha => arranged_ascending ho ha hfo (fun b hb hne => (hnew b (hl.subset hb) hne).1)
      fun a ha b hb hne => (hnew b (hl.subset hb) hne).2 a ha
  refine ⟨?_,hs _ (List.Sublist.refl _) funcs.sorted,hs _ ?_ (funcs.filter p).sorted⟩
  · rw [hf, arranged_filter hold]
  · rw [hf]
    exact List.filter_sublist

/-- What a run of `ProcReader` keeps of a process that entered with its PID. -/
def keepsProc (options : Text) (k : CphfId) : Bool := k = .pid || ProcOption.chosen options k

section
variable {sys : System} {options : Text}

lemma mem_gathered_proc {i : ProcInfo} {l : Text} {funcs : ReaderFuncs} {a : CphfAttribute}
    (h : gather (ProcReader.entry sys i) ∅ l = .ok funcs) (ha : a ∈ funcs.entries) :
    ∃ o : ProcOption, o.char ∈ l ∧ a.1 = o.attribID := by
  obtain ⟨c,hc,he⟩ := (find?_gather (ProcReader.entry_functional sys i) h a.1 a.2).mp
    (OMap.mem_entries.mp ha)
  obtain ⟨o,rfl,hk,_⟩ := (ProcReader.entry_eq_ok sys i).mp he
  exact ⟨o,hc,hk⟩

/-- What is gathered, but the command, comes after the PID. -/
lemma gathered_proc_after {i : ProcInfo} {l : Text} {funcs : ReaderFuncs} (v : Text)
    (h : gather (ProcReader.entry sys i) ∅ l = .ok funcs) :
    ∀ b ∈ funcs.entries, b.1 ≠ .cmd →
      .cmd < b.1 ∧ ∀ a ∈ [((.pid,v) : CphfAttribute)], a.1 < b.1 := by
  intro b hb hne
  obtain ⟨o,_,ho⟩ := mem_gathered_proc h hb
  simp only [List.mem_singleton, forall_eq]
  rw [ho] at hne ⊢
  cases o <;> first | exact absurd rfl hne | decide

/-- The identifier of an entry is chosen when some of the options give an entry of it. -/
lemma chosen_iff_entry {i : ProcInfo} {c : Char} {k : CphfId} {v : Text}
    (h : ProcReader.entry sys i c = .ok (k,v)) :
    ProcOption.chosen options k = true ↔
      ∃ b ∈ options, ∃ w, ProcReader.entry sys i b = .ok (k,w) := by
  obtain ⟨o,rfl,rfl,_⟩ := (ProcReader.entry_eq_ok sys i).mp h
  rw [ProcOption.chosen_iff]
  constructor
  · rintro ⟨o',hk,ho'⟩
    rw [ProcOption.attribID_injective hk] at ho'
    exact ⟨_,ho',v,h⟩
  · rintro ⟨c',hc',w,hw⟩
    obtain ⟨o',rfl,hk,_⟩ := (ProcReader.entry_eq_ok sys i).mp hw
    exact ⟨o',hk.symm,hc'⟩

/-- One process under all options and under some of them. -/
theorem visit_filters (hs : ∀ c ∈ options, c ∈ PROC_OPTS_DEFAULT) {d s d' : ProcLoop}
    (h : SameRecord options d.info s.info) {key : ℤ} {proc procD : ProcFile}
    (hd : ProcReader.visit sys PROC_OPTS_DEFAULT d key proc = .ok (d',procD)) :
    ∃ s' procS, ProcReader.visit sys options s key proc = .ok (s',procS) ∧
      SameRecord options d'.info s'.info ∧ ∀ v, proc.attributes = [(.pid,v)] →
        FilteredFrom (keepsProc options) procD.attributes procS.attributes := by
  rw [ProcReader.visit_eq] at hd ⊢
  cases hstat : sys.stat (exePath sys (asUInt32 key)) with
  | none =>
    rw [hstat] at hd
    cases hd
    refine ⟨_,_,rfl,h.afterStatFile _,fun v hv => ?_⟩
    simp [hv, FilteredFrom, keepsProc, Ascending]
  | some info =>
    rw [hstat] at hd
    have hp : SameRecord options (d.info.forProcess sys (asUInt32 key) info)
        (s.info.forProcess sys (asUInt32 key) info) := h.forProcess _ info
    obtain ⟨funcs,hg,he⟩ := bind_eq_ok.mp hd
    cases he
    have hsome := gather_filter (p := ProcOption.chosen options) (ProcReader.entry_functional sys _)
      hg hs fun c _ k v hc => chosen_iff_entry hc
    dsimp only
    rw [gather_congr fun c hc => hp.entry hc, hsome]
    refine ⟨_,_,rfl,hp.afterOptions,fun v hv => ?_⟩
    rw [ProcFile.addAttributes_attributes, ProcFile.addAttributes_attributes, hv]
    refine filteredFrom_arranged (fun k hk => ?_) ?_ ?_ ?_ ?_
    · obtain ⟨a,ha,rfl⟩ := List.mem_map.mp hk
      obtain ⟨o,_,ho⟩ := mem_gathered_proc hg ha
      have hne : a.1 ≠ .pid := by rw [ho]; cases o <;> decide
      simp [keepsProc, hne]
    · simp [keepsProc]
    · simp [Ascending]
    · simp only [List.mem_singleton, forall_eq]
      decide
    · exact gathered_proc_after v hg

/-- A process that entered with its PID leaves with a list in order. -/
theorem visit_ascending {st st' : ProcLoop} {key : ℤ} {proc proc' : ProcFile}
    (h : ProcReader.visit sys options st key proc = .ok (st',proc')) {v : Text}
    (hv : proc.attributes = [(.pid,v)]) : Ascending proc'.attributes := by
  rcases ProcReader.visit_eq_ok h with ⟨_,rfl⟩ | ⟨info,funcs,_,hg,rfl⟩
  · simp [hv, Ascending]
  · rw [ProcFile.addAttributes_attributes, hv]
    have hafter : ∀ b ∈ funcs.entries, b.1 ≠ .cmd → _ := gathered_proc_after v hg
    refine arranged_ascending (by simp [Ascending]) funcs.sorted ?_ (fun b hb hne =>
      (hafter b hb hne).1) fun a ha b hb hne => (hafter b hb hne).2 a ha
    simp only [List.mem_singleton, forall_eq]
    decide

/-- The same characters in another order or number give the same process and record. -/
theorem visit_same {options' : Text} (hc : ∀ c, c ∈ options' ↔ c ∈ options) {st : ProcLoop}
    {key : ℤ} {proc : ProcFile} {r : ProcLoop × ProcFile}
    (h : ProcReader.visit sys options st key proc = .ok r) :
    ProcReader.visit sys options' st key proc = .ok r := by
  have hany : ∀ f : Char → Bool, options'.any f = options.any f := fun f => by
    rw [Bool.eq_iff_iff, List.any_eq_true, List.any_eq_true]
    exact exists_congr fun c => and_congr_left fun _ => hc c
  rw [ProcReader.visit_eq] at h ⊢
  cases hstat : sys.stat (exePath sys (asUInt32 key)) with
  | none =>
    rw [hstat] at h
    exact h
  | some info =>
    rw [hstat] at h
    obtain ⟨funcs,hg,he⟩ := bind_eq_ok.mp h
    have hsame := gather_same (ProcReader.entry_functional sys _) hc hg
    dsimp only
    rw [hsame, ok_bind, ← he]
    unfold ProcInfo.afterOptions usesPw usesGr
    rw [hany, hany]

theorem procReader_filters {fresh : ProcInfo} {procMap m : ProcMap} {out : Text}
    (hs : ∀ c ∈ options, c ∈ PROC_OPTS_DEFAULT)
    (h : ProcReader.do_read sys fresh PROC_OPTS_DEFAULT procMap = .ok (out,m)) :
    ∃ r, ProcReader.do_read sys fresh options procMap = .ok r ∧
      ∀ k p v, procMap.find? k = some p → p.attributes = [(.pid,v)] → ∃ q q',
        m.find? k = some q ∧ r.2.find? k = some q' ∧
          FilteredFrom (keepsProc options) q.attributes q'.attributes := by
  obtain ⟨⟨st,m'⟩,ht,he⟩ := bind_eq_ok.mp h
  cases he
  obtain ⟨st',m',hg,_,hall⟩ := OMap.traverse_related
    (R := fun d s : ProcLoop => SameRecord options d.info s.info)
    (Q := fun _ p (q q' : ProcFile) => ∀ v, p.attributes = [(CphfId.pid,v)] →
      FilteredFrom (keepsProc options) q.attributes q'.attributes)
    (fun d s k p _ hR d' q hd => visit_filters hs hR hd) ⟨rfl,fun _ => rfl,fun _ => rfl⟩ ht
  refine ⟨_,bind_eq_ok.mpr ⟨_,hg,rfl⟩,fun k p v hp hv => ?_⟩
  obtain ⟨q,q',hq,hq',hf⟩ := hall k p hp
  exact ⟨q,q',hq,hq',hf v hv⟩

lemma mem_gathered_file {path : Text} {stat : Stat} {l : Text} {funcs : ReaderFuncs}
    {a : CphfAttribute}
    (h : gather (fun c => FileStatReader.processOpiton sys c path stat) ∅ l = .ok funcs)
    (ha : a ∈ funcs.entries) : ∃ o : FileOption, o.char ∈ l ∧ o.attribID = some a.1 := by
  obtain ⟨c,hc,he⟩ := (find?_gather (FileStatReader.processOpiton_functional sys path stat) h
    a.1 a.2).mp (OMap.mem_entries.mp ha)
  obtain ⟨o,rfl,hk,_⟩ := (FileStatReader.processOpiton_eq_ok sys path stat).mp he
  exact ⟨o,hc,hk⟩

/-- What is gathered, but the name, comes after it. -/
lemma gathered_file_after {path : Text} {stat : Stat} {l : Text} {funcs : ReaderFuncs}
    (h : gather (fun c => FileStatReader.processOpiton sys c path stat) ∅ l = .ok funcs) :
    ∀ b ∈ funcs.entries, b.1 ≠ .filename → .filename < b.1 := by
  rintro ⟨k,v⟩ hb hne
  obtain ⟨o,_,ho⟩ := mem_gathered_file h hb
  dsimp only at hne ⊢
  cases o <;> cases ho <;> first | exact absurd rfl hne | decide

lemma chosen_iff_processOpiton {path : Text} {stat : Stat} {c : Char} {k : CphfId} {v : Text}
    (h : FileStatReader.processOpiton sys c path stat = .ok (k,v)) :
    FileOption.chosen options k = true ↔
      ∃ b ∈ options, ∃ w, FileStatReader.processOpiton sys b path stat = .ok (k,w) := by
  obtain ⟨o,rfl,hk,_⟩ := (FileStatReader.processOpiton_eq_ok sys path stat).mp h
  rw [FileOption.chosen_iff]
  constructor
  · rintro ⟨o',hk',ho'⟩
    rw [FileOption.attribID_injective hk' hk] at ho'
    exact ⟨_,ho',v,h⟩
  · rintro ⟨c',hc',w,hw⟩
    obtain ⟨o',rfl,hk',_⟩ := (FileStatReader.processOpiton_eq_ok sys path stat).mp hw
    exact ⟨o',hk',hc'⟩

/-- One file under all options and under some of them. -/
theorem readFileStatAttributes_filters {T : UInt64} {fid pid : UInt32} {u uD : UnlinkedFile}
    (hs : ∀ c ∈ options, c ∈ FILESTAT_OPTS_DEFAULT)
    (h : readFileStatAttributes sys T FILESTAT_OPTS_DEFAULT fid pid u = .ok uD) :
    ∃ uS, readFileStatAttributes sys T options fid pid u = .ok uS ∧ (u.attributes = [] →
      FilteredFrom (FileOption.chosen options) uD.attributes uS.attributes) := by
  unfold readFileStatAttributes at h ⊢
  dsimp only at h ⊢
  cases hstat : sys.stat (formPath T pid fid.toUInt64) with
  | none =>
    rw [hstat] at h
    cases h
    refine ⟨_,rfl,fun hu => ?_⟩
    simp [hu, FilteredFrom, Ascending]
  | some stat =>
    rw [hstat] at h
    obtain ⟨funcs,hg,he⟩ := bind_eq_ok.mp h
    cases he
    rw [FileStatReader.run_collect] at hg
    have hf := FileStatReader.processOpiton_functional sys (formPath T pid fid.toUInt64) stat
    have hsome := gather_filter (p := FileOption.chosen options) hf hg hs
      fun c _ k v hc => chosen_iff_processOpiton hc
    dsimp only
    rw [FileStatReader.run_collect, hsome]
    refine ⟨_,rfl,fun hu => ?_⟩
    rw [UnlinkedFile.addAttributes_attributes, UnlinkedFile.addAttributes_attributes, hu]
    refine filteredFrom_arranged (fun k hk => rfl) ?_ ?_ ?_ ?_
    · simp
    · simp [Ascending]
    · simp
    · exact fun b hb hne => ⟨gathered_file_after hg b hb hne,by simp⟩

/-- A file that entered with nothing leaves with a list in order. -/
theorem readFileStatAttributes_ascending {T : UInt64} {fid pid : UInt32} {u u' : UnlinkedFile}
    (h : readFileStatAttributes sys T options fid pid u = .ok u') (hu : u.attributes = []) :
    Ascending u'.attributes := by
  unfold readFileStatAttributes at h
  dsimp only at h
  cases hstat : sys.stat (formPath T pid fid.toUInt64) with
  | none =>
    rw [hstat] at h
    cases h
    simp [hu, Ascending]
  | some stat =>
    rw [hstat] at h
    obtain ⟨funcs,hg,he⟩ := bind_eq_ok.mp h
    cases he
    rw [FileStatReader.run_collect] at hg
    rw [UnlinkedFile.addAttributes_attributes, hu]
    exact arranged_ascending (by simp [Ascending]) funcs.sorted (by simp) (gathered_file_after hg)
      (by simp)

theorem addFileAttributes_filters {T : UInt64} {p q : ProcFile}
    (hs : ∀ c ∈ options, c ∈ FILESTAT_OPTS_DEFAULT)
    (h : p.addFileAttributes (readFileStatAttributes sys T FILESTAT_OPTS_DEFAULT) = .ok q) :
    ∃ q', p.addFileAttributes (readFileStatAttributes sys T options) = .ok q' ∧
      ∀ j u, p.ulFiles.find? j = some u → u.attributes = [] → ∃ a a',
        q.ulFiles.find? j = some a ∧ q'.ulFiles.find? j = some a' ∧
          FilteredFrom (FileOption.chosen options) a.attributes a'.attributes := by
  obtain ⟨files,ht,rfl⟩ := ProcFile.addFileAttributes_ok.mp h
  obtain ⟨_,files',hg,_,hall⟩ := OMap.traverse_related (R := fun _ _ : Unit => True)
    (Q := fun _ u (a a' : UnlinkedFile) => u.attributes = [] →
      FilteredFrom (FileOption.chosen options) a.attributes a'.attributes)
    (fun _ _ k u _ _ s' a ha => by
      obtain ⟨a₁,ha₁,he⟩ := map_eq_ok.mp ha
      cases he
      obtain ⟨a',ha',hf⟩ := readFileStatAttributes_filters hs ha₁
      exact ⟨(),a',map_eq_ok.mpr ⟨a',ha',rfl⟩,trivial,hf⟩) trivial ht
  refine ⟨_,ProcFile.addFileAttributes_ok.mpr ⟨files',hg,rfl⟩,fun j u hu hn => ?_⟩
  obtain ⟨a,a',ha,ha',hf⟩ := hall j u hu
  exact ⟨a,a',ha,ha',hf hn⟩

theorem fileStatReader_filters {T : UInt64} {procMap m : ProcMap}
    (hs : ∀ c ∈ options, c ∈ FILESTAT_OPTS_DEFAULT)
    (h : FileStatReader.do_read sys T FILESTAT_OPTS_DEFAULT procMap = .ok m) :
    ∃ m', FileStatReader.do_read sys T options procMap = .ok m' ∧
      ∀ e u, fileAt procMap e = some u → u.attributes = [] → ∃ a a',
        fileAt m e = some a ∧ fileAt m' e = some a' ∧
          FilteredFrom (FileOption.chosen options) a.attributes a'.attributes := by
  obtain ⟨⟨_,m₁⟩,ht,he⟩ := bind_eq_ok.mp h
  cases he
  obtain ⟨_,m',hg,_,hall⟩ := OMap.traverse_related (R := fun _ _ : Unit => True)
    (Q := fun _ (p q q' : ProcFile) => ∀ j u, p.ulFiles.find? j = some u → u.attributes = [] →
      ∃ a a', q.ulFiles.find? j = some a ∧ q'.ulFiles.find? j = some a' ∧
        FilteredFrom (FileOption.chosen options) a.attributes a'.attributes)
    (fun _ _ k p _ _ s' q hq => by
      obtain ⟨q₁,hq₁,he⟩ := map_eq_ok.mp hq
      cases he
      obtain ⟨q',hq',hf⟩ := addFileAttributes_filters hs hq₁
      exact ⟨(),q',map_eq_ok.mpr ⟨q',hq',rfl⟩,trivial,hf⟩) trivial ht
  refine ⟨m',bind_eq_ok.mpr ⟨_,hg,rfl⟩,fun ⟨k,j⟩ u hu hn => ?_⟩
  obtain ⟨p,hp,hpu⟩ := Option.bind_eq_some_iff.mp hu
  obtain ⟨q,q',hq,hq',hf⟩ := hall k p hp
  obtain ⟨a,a',ha,ha',hfa⟩ := hf j u hpu hn
  exact ⟨a,a',by simp [fileAt, hq, ha],by simp [fileAt, hq', ha'],hfa⟩

theorem readFileStatAttributes_same {options' : Text} {T : UInt64} {fid pid : UInt32}
    {u u' : UnlinkedFile} (hc : ∀ c, c ∈ options' ↔ c ∈ options)
    (h : readFileStatAttributes sys T options fid pid u = .ok u') :
    readFileStatAttributes sys T options' fid pid u = .ok u' := by
  unfold readFileStatAttributes at h ⊢
  dsimp only at h ⊢
  cases hstat : sys.stat (formPath T pid fid.toUInt64) with
  | none =>
    rw [hstat] at h
    exact h
  | some stat =>
    rw [hstat] at h
    obtain ⟨funcs,hg,he⟩ := bind_eq_ok.mp h
    rw [FileStatReader.run_collect] at hg
    have hsame := gather_same (FileStatReader.processOpiton_functional sys _ stat) hc hg
    dsimp only
    rw [FileStatReader.run_collect, hsame, ok_bind, ← he]

end

/-- A traversal of which every step agrees with another's leaves the same map. -/
lemma traverse_mono {κ ν σ : Type} [LinearOrder κ] {m : OMap κ ν}
    {f g : σ → κ → ν → Except Fault (σ × ν)} {s : σ} {r : σ × OMap κ ν}
    (hfg : ∀ s k v r, f s k v = .ok r → g s k v = .ok r) (h : m.traverse f s = .ok r) :
    m.traverse g s = .ok r := by
  obtain ⟨t,m₁⟩ := r
  obtain ⟨t',m₂,hg,rfl,hall⟩ := OMap.traverse_related (R := Eq) (Q := fun _ _ q q' => q = q')
    (fun s t k p _ hR s' q hs => ⟨s',q,hfg t k p _ (hR ▸ hs),rfl,rfl⟩) rfl h
  have hm : m₂ = m₁ := by
    apply OMap.ext_find?
    intro k
    cases hp : m.find? k with
    | none => rw [(OMap.find?_traverse_eq_none h k).mpr hp, (OMap.find?_traverse_eq_none hg k).mpr hp]
    | some p =>
      obtain ⟨q,q',hq,hq',rfl⟩ := hall k p hp
      rw [hq, hq']
  rw [hg, hm]

/-- The characters of an option string in another order or number give the same store. -/
theorem procReader_same {sys : System} {fresh : ProcInfo} {options options' : Text}
    {procMap : ProcMap} {r : Text × ProcMap} (hc : ∀ c, c ∈ options' ↔ c ∈ options)
    (h : ProcReader.do_read sys fresh options procMap = .ok r) :
    ProcReader.do_read sys fresh options' procMap = .ok r := by
  obtain ⟨t,ht,he⟩ := bind_eq_ok.mp h
  exact bind_eq_ok.mpr ⟨t,traverse_mono (fun _ _ _ _ => visit_same hc) ht,he⟩

theorem fileStatReader_same {sys : System} {T : UInt64} {options options' : Text}
    {procMap m : ProcMap} (hc : ∀ c, c ∈ options' ↔ c ∈ options)
    (h : FileStatReader.do_read sys T options procMap = .ok m) :
    FileStatReader.do_read sys T options' procMap = .ok m := by
  obtain ⟨t,ht,he⟩ := bind_eq_ok.mp h
  refine bind_eq_ok.mpr ⟨t,traverse_mono (fun _ k p r hr => ?_) ht,he⟩
  obtain ⟨q,hq,rfl⟩ := map_eq_ok.mp hr
  obtain ⟨files,hf,rfl⟩ := ProcFile.addFileAttributes_ok.mp hq
  refine map_eq_ok.mpr ⟨_,ProcFile.addFileAttributes_ok.mpr ⟨files,?_,rfl⟩,rfl⟩
  refine traverse_mono (fun _ j u r hr => ?_) hf
  obtain ⟨a,ha,rfl⟩ := map_eq_ok.mp hr
  exact map_eq_ok.mpr ⟨a,readFileStatAttributes_same hc ha,rfl⟩

/-- Choosing these options filters what the run with all of them gives a process: both runs get
through, and they leave such lists. -/
def ProcReader.Filters (sys : System) (fresh : ProcInfo) (options : Text) (procMap : ProcMap)
    (key : ℤ) : Prop :=
  ∃ r r' q q', do_read sys fresh PROC_OPTS_DEFAULT procMap = .ok r ∧
    do_read sys fresh options procMap = .ok r' ∧
    r.2.find? key = some q ∧ r'.2.find? key = some q' ∧
      FilteredFrom (keepsProc options) q.attributes q'.attributes

/-- The same of a file. -/
def FileStatReader.Filters (sys : System) (ULF_TXT_FD : UInt64) (options : Text)
    (procMap : ProcMap) (e : ℤ × ℤ) : Prop :=
  ∃ m m' u u', do_read sys ULF_TXT_FD FILESTAT_OPTS_DEFAULT procMap = .ok m ∧
    do_read sys ULF_TXT_FD options procMap = .ok m' ∧ fileAt m e = some u ∧ fileAt m' e = some u' ∧
      FilteredFrom (FileOption.chosen options) u.attributes u'.attributes

section
variable {sys : System} {options : Text} {procMap : ProcMap}

theorem procReader_filters_iff {fresh : ProcInfo} (hs : ∀ c ∈ options, c ∈ PROC_OPTS_DEFAULT)
    {k : ℤ} {p : ProcFile} {v : Text} (hp : procMap.find? k = some p)
    (hv : p.attributes = [(.pid,v)]) : ProcReader.Filters sys fresh options procMap k ↔
      ProcsAnswered sys PROC_OPTS_DEFAULT fresh procMap := by
  rw [← ProcReader.do_read_completes_iff fun _ hc => hc]
  constructor
  · rintro ⟨r,_,_,_,hr,_⟩
    exact ⟨r,hr⟩
  · rintro ⟨⟨out,m⟩,h⟩
    obtain ⟨r',hr',hall⟩ := procReader_filters hs h
    obtain ⟨q,q',hq,hq',hf⟩ := hall k p v hp hv
    exact ⟨_,r',q,q',h,hr',hq,hq',hf⟩

theorem fileStatReader_filters_iff {T : UInt64} (hs : ∀ c ∈ options, c ∈ FILESTAT_OPTS_DEFAULT)
    {e : ℤ × ℤ} {u : UnlinkedFile} (hu : fileAt procMap e = some u) (hn : u.attributes = []) :
    FileStatReader.Filters sys T options procMap e ↔
      FilesAnswered sys T FILESTAT_OPTS_DEFAULT procMap := by
  rw [← FileStatReader.do_read_completes_iff fun _ hc => hc]
  constructor
  · rintro ⟨m,_,_,_,hm,_⟩
    exact ⟨m,hm⟩
  · rintro ⟨m,hm⟩
    obtain ⟨m',hm',hall⟩ := fileStatReader_filters hs hm
    obtain ⟨a,a',ha,ha',hf⟩ := hall e u hu hn
    exact ⟨m,m',a,a',hm,hm',ha,ha',hf⟩

theorem procReader_ascending {fresh : ProcInfo} {r : Text × ProcMap}
    (h : ProcReader.do_read sys fresh options procMap = .ok r) {k : ℤ} {p : ProcFile} {v : Text}
    (hp : procMap.find? k = some p) (hv : p.attributes = [(.pid,v)]) :
    ∃ q, r.2.find? k = some q ∧ Ascending q.attributes := by
  obtain ⟨q,hq,_,_,hvisit⟩ := ProcReader.do_read_process h hp
  exact ⟨q,hq,visit_ascending hvisit hv⟩

theorem fileStatReader_ascending {T : UInt64} {m : ProcMap}
    (h : FileStatReader.do_read sys T options procMap = .ok m) {e : ℤ × ℤ} {u : UnlinkedFile}
    (hu : fileAt procMap e = some u) (hn : u.attributes = []) :
    ∃ u', fileAt m e = some u' ∧ Ascending u'.attributes := by
  obtain ⟨k,j⟩ := e
  obtain ⟨p,hp,hpu⟩ := Option.bind_eq_some_iff.mp hu
  obtain ⟨files,hq,hfiles⟩ := FileStatReader.do_read_process h hp
  obtain ⟨u',hu',hr⟩ := hfiles j u hpu
  exact ⟨u',by simp [fileAt, hq, hu'],readFileStatAttributes_ascending hr hn⟩

end

/-- A system that has all entries, and a table of drivers with a short name. -/
def shortTable : System :=
  { supplied with
    file := fun path =>
      if path = "/proc/tty/drivers".toList then some "serial /dev".toList else supplied.file path }

end Cphf
