import Cphf.Readers.DriverTable
import Cphf.CLib.Runs

/-! The map of drivers: what a whole table presents for insertion, complete or cut off, and which
of its drivers the two lookups of `readDevice` find again. -/
namespace Cphf
open CLib

/-- The drivers the loop of `buildDeviceMap` presents for insertion. -/
def driversPresented : ℕ → Text → Except Fault (List Driver)
  | 0,_ => .error .unfinished
  | n+1,fsin =>
    readDriver fsin >>= fun r =>
      match r with
      | none => .ok []
      | some (d,fsin) => (d :: ·) <$> driversPresented n fsin

def System.driversPresented (sys : System) : Except Fault (List Driver) :=
  match sys.file "/proc/tty/drivers".toList with
  | none => .ok []
  | some fsin => Cphf.driversPresented (fsin.length+1) fsin

theorem buildDeviceMapLoop_eq (n : ℕ) (fsin : Text) (m : DeviceMap) :
    buildDeviceMapLoop n fsin m = (·.foldl insertDriver m) <$> driversPresented n fsin := by
  induction n generalizing fsin m with
  | zero => rfl
  | succ n ih =>
    rw [buildDeviceMapLoop, driversPresented]
    cases readDriver fsin with
    | error e => rfl
    | ok r =>
      rcases r with _ | ⟨d,rest⟩
      · rfl
      · simp only [ok_bind, ih]
        cases driversPresented n rest <;> rfl

/-- The map is built by inserting what is presented. -/
theorem buildDeviceMap_eq (sys : System) :
    buildDeviceMap sys = (·.foldl insertDriver ∅) <$> sys.driversPresented := by
  unfold buildDeviceMap System.driversPresented
  cases sys.file "/proc/tty/drivers".toList with
  | none => rfl
  | some fsin => exact buildDeviceMapLoop_eq _ fsin ∅

/-- The text of complete lines. -/
def tableText (lines : List DriverLine) : Text := lines.flatMap DriverLine.text

theorem driversPresented_append (n : ℕ) {g : Text} (hg : Blanks g) (s : Text) :
    driversPresented n (g ++ s) = driversPresented n s := by
  cases n with
  | zero => rfl
  | succ n => rw [driversPresented, driversPresented, readDriver_eq, readDriver_eq,
      extractWord_append hg]

/-- Complete lines are presented one by one. -/
theorem driversPresented_lines (lines : List DriverLine) (n : ℕ) (s : Text) :
    driversPresented (lines.length+n) (tableText lines ++ s) =
      (lines.map DriverLine.entry ++ ·) <$> driversPresented n s := by
  induction lines with
  | nil =>
    rw [List.length_nil, Nat.zero_add]
    exact (id_map _).symm
  | cons l lines ih =>
    have htext : tableText (l :: lines) ++ s = l.followedBy ('\n' :: (tableText lines ++ s)) := by
      rw [tableText, List.flatMap_cons, List.append_assoc]
      exact l.followedBy_append ['\n'] _
    have hread := l.readDriver_line (s := '\n' :: (tableText lines ++ s)) (blankOrEnd_cons rfl _)
    have hblank : driversPresented (lines.length+n) ('\n' :: (tableText lines ++ s)) =
        driversPresented (lines.length+n) (tableText lines ++ s) :=
      driversPresented_append _ (g := ['\n']) (by simp [Blanks, isspace]) _
    rw [htext, List.length_cons, Nat.add_right_comm, driversPresented, hread]
    dsimp only [ok_bind]
    rw [hblank, ih]
    cases driversPresented n s <;> rfl

theorem text_length_pos (l : DriverLine) : 0 < l.text.length := by
  have h := List.length_pos_of_ne_nil l.driver_isWord.1
  simp only [DriverLine.text, DriverLine.followedBy, List.length_append]
  omega

theorem length_le_tableText (lines : List DriverLine) : lines.length ≤ (tableText lines).length := by
  induction lines with
  | nil => rfl
  | cons l lines ih =>
    have h := text_length_pos l
    rw [tableText, List.flatMap_cons, List.length_append, List.length_cons]
    change lines.length+1 ≤ l.text.length + (tableText lines).length
    omega

/-- A table in front of another text is presented before it. -/
theorem System.driversPresented_table {sys : System} {lines : List DriverLine} {s : Text}
    (hfile : sys.file "/proc/tty/drivers".toList = some (tableText lines ++ s)) :
    ∃ n, s.length < n ∧ sys.driversPresented =
      (lines.map DriverLine.entry ++ ·) <$> Cphf.driversPresented n s := by
  have hlen := length_le_tableText lines
  refine ⟨(tableText lines).length-lines.length+s.length+1,by omega,?_⟩
  unfold System.driversPresented
  rw [hfile]
  dsimp only
  rw [← driversPresented_lines, List.length_append]
  congr 1
  omega

/-- The table is read without an exception, and its complete lines are presented as they say,
followed by nothing or by what the last line says. -/
def SurvivesCut (sys : System) (lines : List DriverLine) (last : DriverLine) : Prop :=
  Completes (buildDeviceMap sys) ∧ ∃ ds, sys.driversPresented = .ok ds ∧
    (ds = lines.map DriverLine.entry ∨ ds = lines.map DriverLine.entry ++ [last.entry])

/-- `buildDeviceMap` survives a cut table exactly when the cut is not within the five characters
of `/dev/`. -/
theorem survivesCut_iff {sys : System} {lines : List DriverLine} {last : DriverLine} {cut : Text}
    (hfile : sys.file "/proc/tty/drivers".toList = some (tableText lines ++ cut))
    (hcut : cut <+: last.text) : SurvivesCut sys lines last ↔ ¬ last.CutInDev cut := by
  obtain ⟨n,hn,hp⟩ := sys.driversPresented_table hfile
  obtain ⟨n,rfl⟩ : ∃ m, n = m+1 := ⟨n-1,by omega⟩
  unfold SurvivesCut
  rw [buildDeviceMap_eq, completes_map, hp]
  rw [driversPresented]
  rcases last.readDriver_cut (s := ['\n']) (by simp [Blanks, isspace]) hcut with
    ⟨hin,h⟩ | ⟨hin,h | ⟨rest,hrest,h⟩⟩
  · rw [h]
    refine iff_of_false ?_ (not_not_intro hin)
    rintro ⟨⟨ds,hds⟩,_⟩
    cases hds
  · rw [h]
    exact iff_of_true ⟨⟨_,rfl⟩,_,rfl,.inl (List.append_nil _)⟩ hin
  · have hlt := (readDriver_eq_ok h).length_lt
    obtain ⟨n,rfl⟩ : ∃ m, n = m+1 := ⟨n-1,by omega⟩
    have hend : driversPresented (n+1) rest = .ok [] := by
      rw [driversPresented, readDriver_eq, extractWord_blanks hrest]
      rfl
    rw [h]
    dsimp only [ok_bind]
    rw [hend]
    exact iff_of_true ⟨⟨_,rfl⟩,_,rfl,.inr rfl⟩ hin

/-- A system with this table of drivers. -/
def withDrivers (fsin : Text) : System := { (default : System) with file := fun _ => some fsin }

/-- `serial /dev/ttyS 4 64-95 serial`. -/
def serialLine : DriverLine where
  driver := "serial".toList
  name := "ttyS".toList
  major := 4
  min := 64
  max := some 95
  type := "serial".toList
  pad := fun _ => 0
  driver_isWord := by decide
  name_word := by
    have h : "ttyS".toList.all (!isspace ·) = true := by decide
    simpa using h
  type_isWord := by decide
  type_length := by decide
  type_head := by decide
  major_lt := by decide
  min_lt := by decide
  max_lt := by rintro m ⟨⟩; decide

/-- A cut within the range of minor numbers does no harm. -/
theorem survivesCut_range :
    SurvivesCut (withDrivers (tableText [serialLine] ++ "serial /dev/ttyS 4 64-9".toList))
      [serialLine] serialLine := by
  have hcut : "serial /dev/ttyS 4 64-9".toList <+: serialLine.text := by decide +kernel
  have hfile : ∀ fsin path, (withDrivers fsin).file path = some fsin := fun _ _ => rfl
  exact (survivesCut_iff (hfile _ _) hcut).mpr (by decide +kernel)

/-- A cut after `/dev` raises an exception that nobody catches. -/
theorem not_survivesCut_device :
    "serial /dev".toList <+: serialLine.text ∧
    ¬ SurvivesCut (withDrivers (tableText [serialLine] ++ "serial /dev".toList)) [serialLine]
      serialLine := by
  refine ⟨by decide +kernel,?_⟩
  have h : (fun _ => ()) <$> buildDeviceMap
      (withDrivers (tableText [serialLine] ++ "serial /dev".toList)) = .error .outOfRange := by
    decide +kernel
  rintro ⟨⟨m,hm⟩,_⟩
  rw [hm] at h
  cases h

/-- A table whose ranges of one major number are disjoint. -/
structure DriverTable where
  lines : List DriverLine
  min_le : ∀ l ∈ lines, l.min ≤ l.last
  disjoint : lines.Pairwise fun a b => a.major = b.major → a.last < b.min ∨ b.last < a.min

/-- The line has this device. -/
def DriverLine.covers (l : DriverLine) (major minor : ℕ) : Bool :=
  l.major = major && l.min ≤ minor && minor ≤ l.last

/-- The two lookups give the name of the line that has the device, and throw when none does. -/
def DriversFound (sys : System) (lines : List DriverLine) : Prop :=
  ∃ deviceMap, buildDeviceMap sys = .ok deviceMap ∧ ∀ major minor,
    deviceMap.label major minor = (lines.find? (·.covers major minor)).map DriverLine.name

/-- The first driver of a major number is the one that is kept. -/
theorem find?_insertDriver (ds : List Driver) (m : DeviceMap) (major : ℕ) :
    (ds.foldl insertDriver m).find? major = (m.find? major).or
      ((ds.find? (·.major = major)).map fun d => [(d.minor,d.serialDevice)]) := by
  induction ds generalizing m with
  | nil => simp
  | cons d ds ih =>
    have hinsert : (insertDriver m d).find? major =
        (m.find? major).or (if d.major = major then some [(d.minor,d.serialDevice)] else none) := by
      unfold insertDriver
      cases hm : m.find? d.major with
      | some old =>
        dsimp only
        split_ifs with h
        · rw [← h, hm]
          rfl
        · rw [Option.or_none]
      | none =>
        dsimp only
        rw [OMap.find?_insertNew, hm]
        split_ifs with h h' h'
        · rw [h, hm]
          rfl
        · exact absurd h.symm h'
        · exact absurd h'.symm h
        · rw [Option.or_none]
    rw [List.foldl_cons, ih, hinsert, List.find?_cons]
    by_cases h : d.major = major
    · cases m.find? major <;> simp [h]
    · simp [h]

/-- A point is found in a range by itself exactly when it lies in it. -/
theorem lookup_range {r : MinorDevRange} (h : r.min ≤ r.max) (minor : ℕ) (name : Text) :
    CLib.lookup MinorDevRange.lt ⟨minor,minor⟩ [(r,name)] =
      if r.min ≤ minor ∧ minor ≤ r.max then some name else none := by
  simp only [CLib.lookup, MinorDevRange.lt, Bool.and_eq_true, decide_eq_true_eq]
  split_ifs <;> first | rfl | omega

theorem entry_find? (lines : List DriverLine) (major : ℕ) :
    (lines.map DriverLine.entry).find? (·.major = major) =
      (lines.find? (·.major = major)).map DriverLine.entry := by
  rw [List.find?_map]
  rfl

namespace DriverTable
variable (t : DriverTable)

/-- What the lookups find: the first line of the major number, when it has the device. -/
theorem label_eq (major minor : ℕ) :
    ((t.lines.map DriverLine.entry).foldl insertDriver ∅).label major minor =
      ((t.lines.find? (·.major = major)).filter (·.covers major minor)).map DriverLine.name := by
  unfold DeviceMap.label
  rw [find?_insertDriver, entry_find?]
  cases hl : t.lines.find? (·.major = major) with
  | none => rfl
  | some l =>
    have hmajor : l.major = major := by simpa using List.find?_some hl
    have hle := t.min_le l (List.mem_of_find?_eq_some hl)
    have hcovers : l.covers major minor = true ↔ l.min ≤ minor ∧ minor ≤ l.last := by
      simp [DriverLine.covers, hmajor]
    change CLib.lookup MinorDevRange.lt ⟨minor,minor⟩ [(⟨l.min,l.last⟩,l.name)] = _
    rw [lookup_range hle]
    by_cases hc : l.min ≤ minor ∧ minor ≤ l.last
    · simp [hc, Option.filter, hcovers.mpr hc]
    · simp [hc, Option.filter, mt hcovers.mp hc]

/-- When no major number is repeated, only the first line of one can have its devices. -/
theorem find?_covers (h : (t.lines.map DriverLine.major).Nodup) (major minor : ℕ) :
    (t.lines.find? (·.major = major)).filter (·.covers major minor) =
      t.lines.find? (·.covers major minor) := by
  have hone : ∀ l ∈ t.lines, ∀ l' ∈ t.lines, l.major = l'.major → l = l' := fun l hl l' hl' =>
    List.inj_on_of_nodup_map h hl hl'
  have hmajor : ∀ l : DriverLine, l.covers major minor = true → l.major = major := fun l hl => by
    simp only [DriverLine.covers, Bool.and_eq_true, decide_eq_true_eq] at hl
    exact hl.1.1
  cases hc : t.lines.find? (·.covers major minor) with
  | none =>
    rw [List.find?_eq_none] at hc
    cases hl : t.lines.find? (·.major = major) with
    | none => rfl
    | some l => simp [Option.filter, hc l (List.mem_of_find?_eq_some hl)]
  | some l =>
    have hm := List.mem_of_find?_eq_some hc
    have hlc : l.covers major minor = true := by simpa using List.find?_some hc
    cases hl : t.lines.find? (·.major = major) with
    | none =>
      rw [List.find?_eq_none] at hl
      exact absurd (hmajor l hlc) (by simpa using hl l hm)
    | some l' =>
      have hl' : l'.major = major := by simpa using List.find?_some hl
      rw [hone l' (List.mem_of_find?_eq_some hl) l hm (hl'.trans (hmajor l hlc).symm)]
      simp [Option.filter, hlc]

/-- A later line of a major number is lost. -/
theorem nodup_of_find?_covers
    (h : ∀ major minor, ((t.lines.find? (·.major = major)).filter (·.covers major minor)).map
      DriverLine.name = (t.lines.find? (·.covers major minor)).map DriverLine.name) :
    (t.lines.map DriverLine.major).Nodup := by
  rw [List.nodup_iff_pairwise_ne, List.pairwise_map, List.pairwise_iff_forall_sublist]
  intro a b hab hmajor
  have hb : b ∈ t.lines := hab.subset (by simp)
  obtain ⟨l,hl⟩ : ∃ l, t.lines.find? (·.major = a.major) = some l := by
    rw [← Option.isSome_iff_exists, List.find?_isSome]
    exact ⟨a,hab.subset (by simp),by simp⟩
  obtain ⟨hlm,pre,post,hlines,hpre⟩ := List.find?_eq_some_iff_append.mp hl
  have hbpost : b ∈ post := by
    rw [hlines, List.sublist_append_iff] at hab
    obtain ⟨x,y,hxy,hx,hy⟩ := hab
    cases x with
    | nil =>
      rw [List.nil_append] at hxy
      subst hxy
      rcases List.sublist_cons_iff.mp hy with hy | ⟨r,hr,hy⟩
      · exact hy.subset (by simp)
      · rw [(List.cons.inj hr).2.symm] at hy
        exact hy.subset (by simp)
    | cons c x =>
      have hc : c = a := (List.cons.inj hxy).1.symm
      have := hpre c (hx.subset (by simp))
      simp [hc] at this
  have hlmajor : l.major = a.major := by simpa using hlm
  have hdis := t.disjoint
  rw [hlines, List.pairwise_append, List.pairwise_cons] at hdis
  have hapart := hdis.2.1.1 b hbpost (hlmajor.trans hmajor)
  have hle := t.min_le b hb
  have hcovers : b.covers a.major b.min = true := by
    simp [DriverLine.covers, hmajor, hle]
  have hnot : l.covers a.major b.min = false := by
    simp only [DriverLine.covers, hlmajor, decide_true, Bool.true_and, Bool.and_eq_false_iff,
      decide_eq_false_iff_not]
    omega
  have hfound := h a.major b.min
  rw [hl] at hfound
  simp only [Option.filter, hnot, Bool.false_eq_true, if_false, Option.map_none] at hfound
  have hnone := Option.map_eq_none_iff.mp hfound.symm
  rw [List.find?_eq_none] at hnone
  exact hnone b hb hcovers

end DriverTable

/-- Every driver of a table can be found exactly when no two lines share a major number. -/
theorem driversFound_iff {sys : System} (t : DriverTable)
    (hfile : sys.file "/proc/tty/drivers".toList = some (tableText t.lines)) :
    DriversFound sys t.lines ↔ (t.lines.map DriverLine.major).Nodup := by
  have htable : sys.file "/proc/tty/drivers".toList = some (tableText t.lines ++ []) := by
    rw [hfile, List.append_nil]
  obtain ⟨n,hn,hp⟩ := sys.driversPresented_table htable
  obtain ⟨n,rfl⟩ : ∃ m, n = m+1 := ⟨n-1,by omega⟩
  have hbuild : buildDeviceMap sys =
      .ok ((t.lines.map DriverLine.entry).foldl insertDriver ∅) := by
    have hend : Cphf.driversPresented (n+1) [] = .ok [] := rfl
    rw [buildDeviceMap_eq, hp, hend]
    simp [Functor.map, Except.map]
  unfold DriversFound
  rw [hbuild]
  simp only [Except.ok.injEq, exists_eq_left', t.label_eq]
  exact ⟨t.nodup_of_find?_covers,fun h major minor => by rw [t.find?_covers h]⟩

/-- `pty_slave /dev/pts 136 0-1048575 pty:slave`. -/
def ptsLine : DriverLine where
  driver := "pty_slave".toList
  name := "pts".toList
  major := 136
  min := 0
  max := some 1048575
  type := "pty:slave".toList
  pad := fun _ => 4
  driver_isWord := by decide
  name_word := by
    have h : "pts".toList.all (!isspace ·) = true := by decide
    simpa using h
  type_isWord := by decide
  type_length := by decide
  type_head := by decide
  major_lt := by decide
  min_lt := by decide
  max_lt := by rintro m ⟨⟩; decide

/-- `rfcomm /dev/rfcomm 216 3 serial`. -/
def rfcommLine : DriverLine where
  driver := "rfcomm".toList
  name := "rfcomm".toList
  major := 216
  min := 3
  max := none
  type := "serial".toList
  pad := fun i => i
  driver_isWord := by decide
  name_word := by
    have h : "rfcomm".toList.all (!isspace ·) = true := by decide
    simpa using h
  type_isWord := by decide
  type_length := by decide
  type_head := by decide
  major_lt := by decide
  min_lt := by decide
  max_lt := by rintro m ⟨⟩

/-- Three drivers with major numbers of their own. -/
def ownMajors : DriverTable := ⟨[ptsLine,serialLine,rfcommLine],by decide,by decide⟩

theorem driversFound_ownMajors :
    DriversFound (withDrivers (tableText ownMajors.lines)) ownMajors.lines := by
  have hfile : ∀ fsin path, (withDrivers fsin).file path = some fsin := fun _ _ => rfl
  exact (driversFound_iff ownMajors (hfile _ _)).mpr (by decide)

/-- `unknown /dev/tty 4 1-63 console`. -/
def consoleLine : DriverLine where
  driver := "unknown".toList
  name := "tty".toList
  major := 4
  min := 1
  max := some 63
  type := "console".toList
  pad := fun _ => 0
  driver_isWord := by decide
  name_word := by
    have h : "tty".toList.all (!isspace ·) = true := by decide
    simpa using h
  type_isWord := by decide
  type_length := by decide
  type_head := by decide
  major_lt := by decide
  min_lt := by decide
  max_lt := by rintro m ⟨⟩; decide

/-- The serial lines and the virtual consoles share a major number. -/
def sharedMajor : DriverTable := ⟨[serialLine,consoleLine],by decide,by decide⟩

/-- The first console is not found. -/
theorem not_driversFound_console :
    ¬ DriversFound (withDrivers (tableText sharedMajor.lines)) sharedMajor.lines := by
  rintro ⟨m,hm,h⟩
  have hlabel : (fun m : DeviceMap => m.label 4 1) <$>
      buildDeviceMap (withDrivers (tableText sharedMajor.lines)) = .ok none := by decide +kernel
  have hfind : (sharedMajor.lines.find? (·.covers 4 1)).map DriverLine.name =
      some "tty".toList := by decide +kernel
  rw [hm] at hlabel
  have hnone := (h 4 1).symm.trans (Except.ok.inj hlabel)
  rw [hfind] at hnone
  cases hnone

end Cphf
