import Cphf.Readers.StatFile
import Cphf.CLib.Fields

/-! Complete stat files: the five formats of `readProcStat` field by field, and the members a
file that has all their fields fills. -/
namespace Cphf
open CLib

/-- A field of a format is skipped or stored in a member. -/
inductive Slot
  | skip (k : Conversion)
  | store (f : StatField)
  deriving DecidableEq

/-- The conversion that reads a member. -/
def StatField.conversion : StatField → Conversion
  | state => .char
  | ppid | procgid | device => .signed false
  | rss => .signed true
  | putime | pstime | pcutime | pcstime | starttime | vms | textbegin | textend | stackbegin
  | esp | epi | databegin | dataend => .unsigned true

namespace Slot

def format : Slot → FieldFormat
  | skip k => (true,k)
  | store f => (false,f.conversion)

def stored : Slot → Option StatField
  | skip _ => none
  | store f => some f

end Slot

/-- The formats of the five calls. -/
def statSlots : List (List Slot) :=
  let d := .skip (.signed false)
  let u := .skip (.unsigned false)
  [[d,.skip .word,.store .state,.store .ppid,.store .procgid,d,.store .device,u,u,u],
   [u,u,u,.store .putime,.store .pstime,.store .pcutime,.store .pcstime,u,u,u],
   [u,.store .starttime,.store .vms,.store .rss,u,.store .textbegin],
   [.store .textend,.store .stackbegin,.store .esp,.store .epi],
   [u,u,u,u,u,u,u,u,d,d,u,u,u,u,d,.store .databegin,.store .dataend]]

/-- A call whose format has these fields, the members to store in being those of its slots. -/
def callOf (slots : List Slot) : List Directive × List StatField :=
  (fieldDirectives (slots.map Slot.format),slots.filterMap Slot.stored)

theorem statCalls_eq :
    statCalls.map (fun c => (directives .plain c.1,c.2)) = statSlots.map callOf := by
  decide +kernel

/-- The members stored from the fields of a call. -/
def storedFrom (slots : List Slot) (ts : List (Text × Item)) : List (StatField × Item) :=
  (slots.zip ts).filterMap fun e => e.1.stored.map fun f => (f,e.2.2)

theorem zip_assigned (slots : List Slot) (ts : List (Text × Item)) :
    (slots.filterMap Slot.stored).zip (assigned (slots.map Slot.format) (ts.map Prod.snd)) =
      storedFrom slots ts := by
  induction slots generalizing ts with
  | nil => rfl
  | cons slot slots ih =>
    cases ts with
    | nil => simp [assigned, storedFrom]
    | cons t ts =>
      cases slot with
      | skip k => exact ih ts
      | store f => exact congrArg ((f,t.2) :: ·) (ih ts)

/-- The fields of a call are read by its conversions. -/
abbrev GroupReads (slots : List Slot) (ts : List (Text × Item)) : Prop :=
  List.Forall₂ (fun slot t => Reads slot.format.2 t.1 t.2) slots ts

/-- The format skips blanks in front of its first field. -/
def skipsBlank (slots : List Slot) : Bool :=
  slots.head?.any fun slot => slot.format.2 ≠ .char && slot.format.2 ≠ .unknown

lemma scan_group {slots : List Slot} {ts : List (Text × Item)} (h : GroupReads slots ts)
    {s : Text} (hs : BlankOrEnd s) :
    scan (callOf slots).1 (unwords (ts.map Prod.fst) ++ s) =
      ⟨assigned (slots.map Slot.format) (ts.map Prod.snd),none,s⟩ :=
  scan_fields (List.forall₂_map_left_iff.mpr h) hs

lemma scan_group_blank {slots : List Slot} (h : skipsBlank slots = true) (s : Text) :
    scan (callOf slots).1 (' ' :: s) = scan (callOf slots).1 s := by
  cases slots with
  | nil => cases h
  | cons slot slots =>
    simp only [skipsBlank, List.head?_cons, Option.any_some, Bool.and_eq_true,
      decide_eq_true_eq] at h
    cases slots with
    | nil => exact scan_blank h.1 h.2 _ _ s
    | cons slot' slots => exact scan_blank h.1 h.2 _ _ s

/-- A line of groups of fields, one group for each call. -/
def groupLine (groups : List (List (Text × Item))) : Text :=
  groups.flatMap fun ts => ' ' :: unwords (ts.map Prod.fst)

lemma groupLine_blankOrEnd (groups : List (List (Text × Item))) {s : Text} (hs : BlankOrEnd s) :
    BlankOrEnd (groupLine groups ++ s) := by
  cases groups with
  | nil => exact hs
  | cons ts groups => exact blankOrEnd_cons (by decide) _

lemma storedFrom_length {slots : List Slot} {ts : List (Text × Item)} (h : GroupReads slots ts) :
    (storedFrom slots ts).length = (assigned (slots.map Slot.format) (ts.map Prod.snd)).length := by
  induction h with
  | nil => rfl
  | @cons slot t slots ts _ _ ih =>
    cases slot with
    | skip k => exact ih
    | store f => exact congrArg (· + 1) ih

/-- Calls on a line that has all their fields convert all of them. -/
theorem scans_groups {calls : List (Text × List StatField)} {slots : List (List Slot)}
    (hcalls : calls.map (fun c => (directives .plain c.1,c.2)) = slots.map callOf)
    (hslots : slots.all skipsBlank = true) {groups : List (List (Text × Item))}
    (hread : List.Forall₂ GroupReads slots groups) {s : Text} (hs : BlankOrEnd s) :
    Scans calls (groupLine groups ++ s) ((slots.zip groups).flatMap fun e => storedFrom e.1 e.2) := by
  induction hread generalizing calls with
  | nil =>
    rw [List.map_nil, List.map_eq_nil_iff] at hcalls
    subst hcalls
    exact ⟨rfl,rfl⟩
  | @cons g ts slots groups hg _ ih =>
    cases calls with
    | nil => simp at hcalls
    | cons c calls =>
      obtain ⟨fmt,fields⟩ := c
      simp only [List.map_cons, List.cons.injEq] at hcalls
      obtain ⟨hc,hcalls⟩ := hcalls
      simp only [List.all_cons, Bool.and_eq_true] at hslots
      have hd : directives .plain fmt = (callOf g).1 := congrArg Prod.fst hc
      have hf : fields = g.filterMap Slot.stored := congrArg Prod.snd hc
      have hrest : BlankOrEnd (groupLine groups ++ s) := groupLine_blankOrEnd groups hs
      have hscan : fscanf fmt (groupLine (ts :: groups) ++ s) =
          ⟨assigned (g.map Slot.format) (ts.map Prod.snd),none,groupLine groups ++ s⟩ := by
        have hline : groupLine (ts :: groups) ++ s =
            ' ' :: (unwords (ts.map Prod.fst) ++ (groupLine groups ++ s)) := by
          simp [groupLine]
        rw [fscanf, hd, hline, scan_group_blank hslots.1]
        exact scan_group hg hrest
      refine Scans.cons hscan (by simp) ?_ (storedFrom_length hg) (ih hcalls hslots.2)
      rw [hf, zip_assigned]

/-- The members in the order they are stored. -/
def statFields : List StatField := statSlots.flatMap (·.filterMap Slot.stored)

theorem mem_statFields (f : StatField) : f ∈ statFields := by cases f <;> decide

theorem statFields_nodup : statFields.Nodup := by decide

/-- A field for every slot, those of the members being given. -/
def tokenOf (val : StatField → Text × Item) : Slot → Text × Item
  | .skip k => if k = .word then (['x'],.word ['x']) else (decimal 0,numeralItem k false 0)
  | .store f => val f

/-- A stat file with these fields in the members' places. -/
def statLine (val : StatField → Text × Item) : Text :=
  groupLine (statSlots.map (·.map (tokenOf val)))

lemma storedFrom_token (val : StatField → Text × Item) (slots : List Slot) :
    storedFrom slots (slots.map (tokenOf val)) =
      (slots.filterMap Slot.stored).map fun f => (f,(val f).2) := by
  induction slots with
  | nil => rfl
  | cons slot slots ih =>
    cases slot with
    | skip k => exact ih
    | store f => exact congrArg ((f,(val f).2) :: ·) ih

lemma storedFrom_tokens (val : StatField → Text × Item) (slots : List (List Slot)) :
    ((slots.zip (slots.map (·.map (tokenOf val)))).flatMap fun e => storedFrom e.1 e.2) =
      (slots.flatMap (·.filterMap Slot.stored)).map fun f => (f,(val f).2) := by
  induction slots with
  | nil => rfl
  | cons g slots ih =>
    rw [List.map_cons, List.zip_cons_cons, List.flatMap_cons, ih, storedFrom_token,
      List.flatMap_cons, List.map_append]

/-- The fields that are skipped are words or plain integers. -/
def Slot.plain : Slot → Bool
  | skip k => k = .word || k = .signed false || k = .unsigned false
  | store _ => true

lemma tokenOf_reads {val : StatField → Text × Item}
    (h : ∀ f, Reads f.conversion (val f).1 (val f).2) {slot : Slot} (hs : slot.plain = true) :
    Reads slot.format.2 (tokenOf val slot).1 (tokenOf val slot).2 := by
  cases slot with
  | store f => exact h f
  | skip k =>
    simp only [Slot.plain, Bool.or_eq_true, decide_eq_true_eq] at hs
    rcases hs with (rfl | rfl) | rfl
    · exact reads_word ⟨by simp [tokenOf],by simp [tokenOf, isspace]⟩
    · exact reads_signed false 0
    · exact reads_unsigned false 0

/-- Such a file fills every member. -/
theorem converted_statLine {val : StatField → Text × Item}
    (h : ∀ f, Reads f.conversion (val f).1 (val f).2) :
    converted statCalls (statLine val) = statFields.map fun f => (f,(val f).2) := by
  have hplain : statSlots.all (·.all Slot.plain) = true := by decide
  have hread : List.Forall₂ GroupReads statSlots (statSlots.map (·.map (tokenOf val))) := by
    rw [List.forall₂_map_right_iff, List.forall₂_same]
    intro g hg
    rw [GroupReads, List.forall₂_map_right_iff, List.forall₂_same]
    exact fun slot hslot =>
      tokenOf_reads h (List.all_eq_true.mp (List.all_eq_true.mp hplain g hg) slot hslot)
  have h := (scans_groups statCalls_eq (by decide) hread blankOrEnd_nil).converted
  rw [List.append_nil, storedFrom_tokens] at h
  exact h

end Cphf
