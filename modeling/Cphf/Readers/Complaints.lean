import Cphf.CLib.Lists
import Cphf.Readers.Leak

/-! What is printed about stat files. Every file that does not fill the record is complained
about, whatever the options, so what is reported about a process without a complaint is its own. -/
namespace Cphf
open CLib

/-- Each call has a member for each of its items. -/
def Fitting (calls : List (Text × List StatField)) : Prop :=
  ∀ c ∈ calls, c.2 ≠ [] ∧ stores (directives .plain c.1) = c.2.length

theorem statCalls_fitting : Fitting statCalls := by
  unfold Fitting
  decide +kernel

theorem statCalls_fields : statCalls.flatMap Prod.snd = statFields := rfl

section
variable {calls : List (Text × List StatField)}

theorem converted_sublist (calls : List (Text × List StatField)) (fin : Text) :
    ((converted calls fin).map Prod.fst).Sublist (calls.flatMap Prod.snd) := by
  induction calls generalizing fin with
  | nil => exact .refl []
  | cons c calls ih =>
    obtain ⟨fmt,fields⟩ := c
    rw [converted, List.map_append, List.flatMap_cons]
    exact (map_fst_zip_sublist _ _).append (ih _)

/-- A call on fitting arguments drops none of the items it converts. -/
lemma Fitting.zip_length {fmt : Text} {fields : List StatField}
    (h : stores (directives .plain fmt) = fields.length) (fin : Text) :
    (fields.zip (fscanf fmt fin).items).length = (fscanf fmt fin).items.length := by
  rw [List.length_zip, Nat.min_eq_right]
  exact h ▸ scan_length_le _ fin

/-- The results never count more than the items converted. -/
theorem scanResult_le (h : Fitting calls) (fin : Text) :
    scanResult calls fin ≤ (converted calls fin).length := by
  induction calls generalizing fin with
  | nil => exact le_rfl
  | cons c calls ih =>
    obtain ⟨fmt,fields⟩ := c
    obtain ⟨⟨_,hstores⟩,hcalls⟩ := List.forall_mem_cons.mp h
    have hrest := ih hcalls (fscanf fmt fin).rest
    have hresult := (fscanf fmt fin).result_le
    have hzip : (fields.zip (fscanf fmt fin).items).length = (fscanf fmt fin).items.length :=
      Fitting.zip_length hstores fin
    simp only [scanResult, converted, List.length_append]
    omega

/-- And they count all of them when no call falls short. -/
theorem scanResult_full (h : Fitting calls) {fin : Text}
    (hfull : (converted calls fin).length = (calls.flatMap Prod.snd).length) :
    scanResult calls fin = (calls.flatMap Prod.snd).length := by
  induction calls generalizing fin with
  | nil => rfl
  | cons c calls ih =>
    obtain ⟨fmt,fields⟩ := c
    obtain ⟨⟨hne,hstores⟩,hcalls⟩ := List.forall_mem_cons.mp h
    have hzip : (fields.zip (fscanf fmt fin).items).length = (fscanf fmt fin).items.length :=
      Fitting.zip_length hstores fin
    have hitems : (fscanf fmt fin).items.length ≤ fields.length := hstores ▸ scan_length_le _ fin
    have hrest := (converted_sublist calls (fscanf fmt fin).rest).length_le
    rw [List.length_map] at hrest
    simp only [converted, List.length_append, List.flatMap_cons] at hfull
    have hlength : (fscanf fmt fin).items.length = fields.length := by omega
    have hresult : (fscanf fmt fin).result = fields.length :=
      (Scan.result_eq_iff (List.length_eq_zero_iff.not.mpr hne)).mpr hlength
    have hsum : scanResult calls (fscanf fmt fin).rest = _ := ih hcalls (by omega)
    simp only [scanResult, List.flatMap_cons, List.length_append]
    omega

/-- The sum of the results is that of the members exactly when all of them are converted. -/
theorem scanResult_eq_iff (h : Fitting calls) (fin : Text) :
    scanResult calls fin = (calls.flatMap Prod.snd).length ↔
      (converted calls fin).map Prod.fst = calls.flatMap Prod.snd := by
  have hsub := converted_sublist calls fin
  have hlength := hsub.length_le
  rw [List.length_map] at hlength
  constructor
  · intro hsum
    apply hsub.eq_of_length_le
    rw [List.length_map]
    have := scanResult_le h fin
    omega
  · intro hmap
    apply scanResult_full h
    rw [← hmap, List.length_map]

end

/-- The stat file is there but leaves members of the record unfilled. -/
def Incomplete (sys : System) (pid : UInt32) : Prop :=
  sys.file (procPath pid "stat".toList) ≠ none ∧ ∃ f ∈ statFields, f ∉ givenMembers sys pid

instance (sys : System) (pid : UInt32) : Decidable (Incomplete sys pid) :=
  inferInstanceAs (Decidable (_ ∧ _))

/-- The line printed about such a file. -/
def problemReading (pid : UInt32) : Text :=
  "ERROR: problem reading /proc/".toList ++ signedDecimal (asInt pid.toNat) ++ "/stat".toList

section
variable {sys : System} {pid : UInt32}

theorem scanResult_statCalls (fin : Text) :
    scanResult statCalls fin = 18 ↔ ∀ f ∈ statFields, f ∈ (converted statCalls fin).map Prod.fst := by
  have hlength : ((statCalls.flatMap Prod.snd).length : ℤ) = 18 := rfl
  rw [← hlength, scanResult_eq_iff statCalls_fitting, statCalls_fields]
  have hsub : ((converted statCalls fin).map Prod.fst).Sublist statFields :=
    converted_sublist statCalls fin
  constructor
  · intro h f hf
    rwa [h]
  · intro h
    exact hsub.eq_of_length_le (statFields_nodup.subperm h).length_le

theorem incomplete_iff {fin : Text} (h : sys.file (procPath pid "stat".toList) = some fin) :
    Incomplete sys pid ↔ scanResult statCalls fin ≠ 18 := by
  have hiff := not_congr (scanResult_statCalls fin)
  push Not at hiff
  rw [Incomplete, givenMembers, h]
  exact (and_iff_right (Option.some_ne_none fin)).trans hiff.symm

/-- A complaint is printed about a process exactly when its stat file is incomplete. -/
theorem statMessage_eq (sys : System) (pid : UInt32) :
    statMessage sys pid = if Incomplete sys pid then problemReading pid ++ ['\n'] else [] := by
  cases hfile : sys.file (procPath pid "stat".toList) with
  | none =>
    rw [if_neg fun h => h.1 hfile]
    simp only [statMessage, hfile]
  | some fin =>
    simp only [statMessage, hfile]
    by_cases h : scanResult statCalls fin = 18
    · rw [if_pos h, if_neg fun hinc => (incomplete_iff hfile).mp hinc h]
    · rw [if_neg h, if_pos ((incomplete_iff hfile).mpr h)]
      exact (List.append_assoc _ "/stat".toList ['\n']).symm

theorem problemReading_line (pid : UInt32) : '\n' ∉ problemReading pid := by
  have h : oneLine (problemReading pid) = true := by
    unfold problemReading
    rw [oneLine_append, oneLine_append]
    exact ⟨⟨by decide,by simp⟩,by decide⟩
  exact (oneLine_iff.mp h).1

end

section
variable {sys : System} {fresh : ProcInfo} {options out : Text} {m m' : ProcMap}

lemma ProcReader.visit_printed {u v : ProcLoop} {k : ℤ} {p q : ProcFile}
    (h : visit sys options u k p = .ok (v,q)) :
    v.printed = u.printed ++ statMessage sys (asUInt32 k) := by
  rw [visit_eq] at h
  cases hs : sys.stat (exePath sys (asUInt32 k)) with
  | none =>
    rw [hs] at h
    cases h
    rfl
  | some info =>
    rw [hs] at h
    obtain ⟨funcs,_,he⟩ := bind_eq_ok.mp h
    cases he
    rfl

/-- What a run prints does not depend on its options. -/
theorem ProcReader.do_read_printed (h : do_read sys fresh options m = .ok (out,m')) :
    out = m.entries.flatMap fun e => statMessage sys (asUInt32 e.1) := by
  obtain ⟨⟨st,m₁⟩,ht,he⟩ := bind_eq_ok.mp h
  cases he
  have hvisits : ∀ (l : List (ℤ × ProcFile)) (l' : List (ℤ × ProcFile)) (u v : ProcLoop),
      traverse (visit sys options) u l = .ok (v,l') →
        v.printed = u.printed ++ l.flatMap fun e => statMessage sys (asUInt32 e.1) := by
    intro l
    induction l with
    | nil =>
      intro l' u v hl
      cases hl
      simp
    | cons e l ih =>
      intro l' u v hl
      obtain ⟨w,q,l₁,hv,hrest,rfl⟩ := traverse_cons_ok.mp hl
      rw [ih _ _ _ hrest, visit_printed hv, List.flatMap_cons, List.append_assoc]
  have hall := hvisits _ _ _ _ (OMap.traverse_ok.mp ht)
  rwa [List.nil_append] at hall

/-- The lines printed name the processes whose stat files are incomplete, each once and in order.
About a process that has a stat file and no such line, every run that gets through reports the
same, whatever the other processes are. -/
theorem ProcReader.do_read_complaints (h : do_read sys fresh options m = .ok (out,m')) :
    getlines '\n' out = (m.entries.filter fun e => Incomplete sys (asUInt32 e.1)).map
      (fun e => problemReading (asUInt32 e.1)) ∧
    ∀ k p, m.find? k = some p → sys.file (procPath (asUInt32 k) "stat".toList) ≠ none →
      problemReading (asUInt32 k) ∉ getlines '\n' out →
      ∀ sys', AgreeFor (asUInt32 k) sys sys' → ∀ fresh' r',
        do_read sys' fresh' options m = .ok r' →
          (m'.find? k).map ProcFile.attributes = (r'.2.find? k).map ProcFile.attributes := by
  have hlines : getlines '\n' out = (m.entries.filter fun e => Incomplete sys (asUInt32 e.1)).map
      (fun e => problemReading (asUInt32 e.1)) := by
    have hout : out = ((m.entries.filter fun e => Incomplete sys (asUInt32 e.1)).map
        (fun e => problemReading (asUInt32 e.1))).flatMap (· ++ ['\n']) := by
      rw [do_read_printed h, List.flatMap_map, ← flatMap_ite]
      congr 1
      funext e
      rw [statMessage_eq]
      simp
    rw [hout]
    apply getlines_flatMap
    intro l hl
    obtain ⟨e,_,rfl⟩ := List.mem_map.mp hl
    exact problemReading_line _
  refine ⟨hlines,fun k p hp hfile hsilent sys' hagree fresh' r' hr' => ?_⟩
  have hcomplete : ¬ Incomplete sys (asUInt32 k) := by
    intro hinc
    apply hsilent
    rw [hlines]
    exact List.mem_map.mpr ⟨(k,p),by simp [OMap.mem_entries.mpr hp, hinc],rfl⟩
  have hown : OwnReads sys options k := by
    refine .inr fun o _ => ⟨.inl fun f _ => ?_,fun _ => hfile⟩
    by_contra hf
    exact hcomplete ⟨hfile,f,mem_statFields f,hf⟩
  exact hown.attributes_eq hagree hp h hr'

end

/-- Of two processes the second has a stat file that ends after its state; with complete files
nothing is printed, and the second is reported alike in every run that gets through. -/
theorem ProcReader.do_read_complaints_two :
    (∃ r, do_read (shortStat "1 (a) S 7".toList) default "P".toList twoProcesses = .ok r ∧
      getlines '\n' r.1 = (twoProcesses.entries.filter fun e =>
          Incomplete (shortStat "1 (a) S 7".toList) (asUInt32 e.1)).map
        (fun e => problemReading (asUInt32 e.1))) ∧
    ∃ r, do_read fullStats default PROC_OPTS_DEFAULT twoProcesses = .ok r ∧
      getlines '\n' r.1 = [] ∧ ∀ sys', AgreeFor 2 fullStats sys' → ∀ fresh' r',
        do_read sys' fresh' PROC_OPTS_DEFAULT twoProcesses = .ok r' →
          (r.2.find? 2).map ProcFile.attributes = (r'.2.find? 2).map ProcFile.attributes := by
  have hshort : (fun r => r.2.entries.length) <$>
      do_read (shortStat "1 (a) S 7".toList) default "P".toList twoProcesses = .ok 2 := by
    decide +kernel
  have hfull : (fun r => r.2.entries.length) <$>
      do_read fullStats default PROC_OPTS_DEFAULT twoProcesses = .ok 2 := by decide +kernel
  have hfile : fullStats.file (procPath 2 "stat".toList) ≠ none := by decide +kernel
  have hnone : (twoProcesses.entries.filter fun e => Incomplete fullStats (asUInt32 e.1)) = [] := by
    decide +kernel
  obtain ⟨r,hr,_⟩ := map_eq_ok.mp hshort
  refine ⟨⟨r,hr,(do_read_complaints hr).1⟩,?_⟩
  obtain ⟨r,hr,_⟩ := map_eq_ok.mp hfull
  obtain ⟨hlines,hown⟩ := do_read_complaints hr
  rw [hnone] at hlines
  have hsilent : problemReading (asUInt32 2) ∉ getlines '\n' r.1 := by simp [hlines]
  exact ⟨r,hr,hlines,hown 2 _ rfl hfile hsilent⟩

end Cphf
