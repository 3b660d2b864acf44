import Cphf.Readers.StatLine
import Cphf.Readers.Numbers

/-! Stat files in the kernel's layout: the fields from the third on are separated by blanks and
numbered through the five calls, so each call reads the fields after those of the one before. -/
namespace Cphf
open CLib

/-- The C type that is documented for a field. -/
inductive FieldType
  | int | uint | long | ulong
  deriving DecidableEq

def FieldType.Holds (v : ℤ) : FieldType → Prop
  | int => -2^31 ≤ v ∧ v < 2^31
  | uint => 0 ≤ v ∧ v < 2^32
  | long => -2^63 ≤ v ∧ v < 2^63
  | ulong => 0 ≤ v ∧ v < 2^64

/-- The types of the numeric fields by their numbers. -/
def fieldType (n : ℕ) : FieldType :=
  if n ∈ [1,4,5,6,7,8,38,39] then .int
  else if n ∈ [9,40,41] then .uint
  else if n ∈ [16,17,18,19,20,21,24,44] then .long
  else .ulong

theorem FieldType.holds_of_small {v : ℤ} (h0 : 0 ≤ v) (h : v < 2^31) (t : FieldType) :
    t.Holds v := by
  cases t <;> constructor <;> omega

/-- A line of the kernel's layout but for its second field: the state letter, the numeric fields
by their numbers, and what follows field 47. -/
structure KernelStat where
  state : Char
  field : ℕ → ℤ
  more : Text
  letter : state.isAlpha = true
  typed : ∀ n, (fieldType n).Holds (field n)
  ends : BlankOrEnd more

namespace KernelStat
variable (k : KernelStat)

/-- A field as it is printed; the second is the command name in parentheses. -/
def print (comm : Text) : ℕ → Text
  | 2 => '(' :: comm ++ [')']
  | 3 => [k.state]
  | n => signedDecimal (k.field n)

/-- The line of a process with this command name. -/
def line (comm : Text) : Text := unwords ((List.range' 1 47).map (k.print comm)) ++ k.more

/-- The record with each documented field in its member. -/
def placed (i : ProcInfo) : ProcInfo :=
  { i with
    state := k.state
    ppid := asUInt32 (k.field 4)
    procgid := asUInt32 (k.field 5)
    device := asUInt32 (k.field 7)
    putime := asUInt64 (k.field 14)
    pstime := asUInt64 (k.field 15)
    pcutime := asUInt64 (k.field 16)
    pcstime := asUInt64 (k.field 17)
    starttime := asUInt64 (k.field 22)
    vms := asUInt64 (k.field 23)
    rss := asUInt64 (k.field 24)
    textbegin := asUInt64 (k.field 26)
    textend := asUInt64 (k.field 27)
    stackbegin := asUInt64 (k.field 28)
    esp := asUInt64 (k.field 29)
    epi := asUInt64 (k.field 30)
    databegin := asUInt64 (k.field 45)
    dataend := asUInt64 (k.field 46) }

/-- The record the calls leave: the last two members come one field late. -/
def filled (i : ProcInfo) : ProcInfo :=
  { k.placed i with
    databegin := asUInt64 (k.field 46)
    dataend := asUInt64 (k.field 47) }

end KernelStat

/-- The fields of the formats, numbered on from one call to the next. -/
def numberFrom : ℕ → List (List Slot) → List (List (Slot × ℕ))
  | _,[] => []
  | n,slots :: calls => slots.zipIdx n :: numberFrom (n + slots.length) calls

theorem numberFrom_fst (n : ℕ) (calls : List (List Slot)) :
    (numberFrom n calls).map (·.map Prod.fst) = calls := by
  induction calls generalizing n with
  | nil => rfl
  | cons slots calls ih => rw [numberFrom, List.map_cons, List.zipIdx_map_fst, ih]

theorem numberFrom_snd (n : ℕ) (calls : List (List Slot)) :
    (numberFrom n calls).flatten.map Prod.snd = List.range' n calls.flatten.length := by
  induction calls generalizing n with
  | nil => rfl
  | cons slots calls ih =>
    rw [numberFrom, List.flatten_cons, List.map_append, List.zipIdx_map_snd, ih, List.flatten_cons,
      List.length_append, List.range'_append_1]

/-- The conversion for a field suits the field. -/
def suits (e : Slot × ℕ) : Bool :=
  match e.1.format.2 with
  | .word => e.2 = 2
  | .char => e.2 = 3
  | .unknown => false
  | _ => e.2 ≠ 2 && e.2 ≠ 3

lemma groupLine_eq {groups : List (List (Text × Item))} (hne : groups ≠ [])
    (h : ∀ ts ∈ groups, ts ≠ []) :
    groupLine groups = ' ' :: unwords (groups.flatten.map Prod.fst) := by
  induction groups with
  | nil => contradiction
  | cons ts groups ih =>
    cases groups with
    | nil => simp [groupLine]
    | cons us groups =>
      have hus : us ≠ [] := h us (by simp)
      have ih := ih (by simp) (fun vs hvs => h vs (List.mem_cons_of_mem _ hvs))
      rw [groupLine, List.flatMap_cons, ← groupLine, ih, @List.flatten_cons _ ts, List.map_append,
        unwords_append (by simpa using h ts (by simp)) (by simp [hus])]
      rfl

/-- The first conversion skips a blank in front of the line. -/
theorem Scans.of_blank {calls : List (Text × List StatField)} {slots : List (List Slot)}
    (hcalls : calls.map (fun c => (directives .plain c.1,c.2)) = slots.map callOf)
    (hslots : slots.all skipsBlank = true) {s : Text} {l : List (StatField × Item)}
    (hne : calls ≠ []) (h : Scans calls (' ' :: s) l) : Scans calls s l := by
  cases calls with
  | nil => contradiction
  | cons c calls =>
    cases slots with
    | nil => simp at hcalls
    | cons g slots =>
      simp only [List.map_cons, List.cons.injEq] at hcalls
      simp only [List.all_cons, Bool.and_eq_true] at hslots
      obtain ⟨fmt,fields⟩ := c
      have hd : directives .plain fmt = (callOf g).1 := congrArg Prod.fst hcalls.1
      have hscan : fscanf fmt (' ' :: s) = fscanf fmt s := by
        rw [fscanf, fscanf, hd, scan_group_blank hslots.1]
      obtain ⟨hconv,hres⟩ := h
      rw [Cphf.converted, hscan] at hconv
      rw [scanResult, hscan] at hres
      exact ⟨hconv,hres⟩

namespace KernelStat
variable (k : KernelStat) {comm : Text}

/-- The item a field is converted to. -/
def item (comm : Text) (e : Slot × ℕ) : Item :=
  match e.1.format.2 with
  | .word => .word (k.print comm 2)
  | .char => .char k.state
  | c => numeralOf c (k.field e.2)

def token (comm : Text) (e : Slot × ℕ) : Text × Item := (k.print comm e.2,k.item comm e)

lemma isspace_of_isAlpha {c : Char} (h : c.isAlpha = true) : isspace c = false := by
  cases hs : isspace c with
  | false => rfl
  | true =>
    simp only [isspace, Bool.or_eq_true, decide_eq_true_eq] at hs
    rcases hs with ((((rfl | rfl) | rfl) | rfl) | rfl) | rfl <;> exact absurd h (by decide)

lemma print_numeric {n : ℕ} (h2 : n ≠ 2) (h3 : n ≠ 3) :
    k.print comm n = signedDecimal (k.field n) := by
  unfold print
  split
  · contradiction
  · contradiction
  · rfl

/-- A conversion reads the field it suits. -/
theorem token_reads (h : ∀ c ∈ comm, isspace c = false) {e : Slot × ℕ} (he : suits e = true) :
    Reads e.1.format.2 (k.token comm e).1 (k.token comm e).2 := by
  obtain ⟨slot,n⟩ := e
  unfold suits at he
  unfold token item
  dsimp only at he ⊢
  cases hc : slot.format.2 with
  | word =>
    simp only [hc, decide_eq_true_eq] at he
    subst he
    refine reads_word ⟨by simp [print],fun c hm => ?_⟩
    simp only [print, List.cons_append, List.mem_cons, List.mem_append, List.not_mem_nil,
      or_false] at hm
    rcases hm with rfl | hm | rfl
    · rfl
    · exact h c hm
    · rfl
  | char =>
    simp only [hc, decide_eq_true_eq] at he
    subst he
    exact reads_char (isspace_of_isAlpha k.letter)
  | unknown => simp [hc] at he
  | signed long =>
    simp only [hc, ne_eq, decide_not, Bool.and_eq_true, Bool.not_eq_true', decide_eq_false_iff_not]
      at he
    rw [print_numeric k he.1 he.2]
    exact reads_integer (fun _ => rfl) _
  | unsigned long =>
    simp only [hc, ne_eq, decide_not, Bool.and_eq_true, Bool.not_eq_true', decide_eq_false_iff_not]
      at he
    rw [print_numeric k he.1 he.2]
    exact reads_integer (fun _ => rfl) _

/-- The fields of the line, grouped by the calls that read them. -/
def groups (comm : Text) : List (List (Text × Item)) :=
  (numberFrom 1 statSlots).map (·.map (k.token comm))

/-- The items that are stored. -/
def stored (comm : Text) : List (StatField × Item) :=
  (statSlots.zip (k.groups comm)).flatMap fun e => storedFrom e.1 e.2

theorem line_eq : groupLine (k.groups comm) ++ k.more = ' ' :: k.line comm := by
  have hne : ∀ ts ∈ k.groups comm, ts ≠ [] := by
    have hslots : (numberFrom 1 statSlots).all (fun ts => !ts.isEmpty) = true := by decide
    intro ts hts
    obtain ⟨es,hes,rfl⟩ := List.mem_map.mp hts
    have hes := List.all_eq_true.mp hslots es hes
    simpa using hes
  have hflat : (k.groups comm).flatten.map Prod.fst = (List.range' 1 47).map (k.print comm) := by
    rw [groups, ← List.map_flatten, List.map_map]
    change (numberFrom 1 statSlots).flatten.map (k.print comm ∘ Prod.snd) = _
    rw [← List.map_map, numberFrom_snd]
    rfl
  rw [groupLine_eq (by simp [groups, numberFrom, statSlots]) hne, hflat, line, List.cons_append]

/-- Calls on a line whose command name has no blanks read every field. -/
theorem scans_line (h : ∀ c ∈ comm, isspace c = false) :
    Scans statCalls (k.line comm) (k.stored comm) := by
  have hsuits : (numberFrom 1 statSlots).all (·.all suits) = true := by decide
  have hread : List.Forall₂ GroupReads statSlots (k.groups comm) := by
    rw [← numberFrom_fst 1 statSlots, groups, List.forall₂_map_left_iff,
      List.forall₂_map_right_iff, List.forall₂_same]
    intro es hes
    rw [GroupReads, List.forall₂_map_left_iff, List.forall₂_map_right_iff, List.forall₂_same]
    exact fun e he =>
      k.token_reads h (List.all_eq_true.mp (List.all_eq_true.mp hsuits es hes) e he)
  have hscans := scans_groups statCalls_eq (by decide) hread k.ends
  rw [line_eq] at hscans
  exact hscans.of_blank statCalls_eq (by decide) (by decide)

theorem stored_eq : k.stored comm =
    [(.state,.char k.state),(.ppid,numeralOf (.signed false) (k.field 4)),
      (.procgid,numeralOf (.signed false) (k.field 5)),
      (.device,numeralOf (.signed false) (k.field 7)),
      (.putime,numeralOf (.unsigned true) (k.field 14)),
      (.pstime,numeralOf (.unsigned true) (k.field 15)),
      (.pcutime,numeralOf (.unsigned true) (k.field 16)),
      (.pcstime,numeralOf (.unsigned true) (k.field 17)),
      (.starttime,numeralOf (.unsigned true) (k.field 22)),
      (.vms,numeralOf (.unsigned true) (k.field 23)),
      (.rss,numeralOf (.signed true) (k.field 24)),
      (.textbegin,numeralOf (.unsigned true) (k.field 26)),
      (.textend,numeralOf (.unsigned true) (k.field 27)),
      (.stackbegin,numeralOf (.unsigned true) (k.field 28)),
      (.esp,numeralOf (.unsigned true) (k.field 29)),
      (.epi,numeralOf (.unsigned true) (k.field 30)),
      (.databegin,numeralOf (.unsigned true) (k.field 46)),
      (.dataend,numeralOf (.unsigned true) (k.field 47))] := rfl

lemma item_int {n : ℕ} (h : fieldType n = .int) :
    numeralOf (.signed false) (k.field n) = .signed (k.field n) := by
  have ht := k.typed n
  rw [h] at ht
  exact numeralOf_int ht.1 ht.2

lemma item_long {n : ℕ} (h : fieldType n = .long) :
    numeralOf (.signed true) (k.field n) = .signed (k.field n) := by
  have ht := k.typed n
  rw [h] at ht
  exact numeralOf_long ht.1 ht.2

lemma item_ulong (n : ℕ) : numeralOf (.unsigned true) (k.field n) = .unsigned (asUInt64 (k.field n)) := by
  have ht := k.typed n
  apply numeralOf_ulong
  all_goals
    revert ht
    cases fieldType n <;> simp only [FieldType.Holds] <;> omega

/-- What the calls make of such a line. -/
theorem scanStat_line (h : ∀ c ∈ comm, isspace c = false) (i : ProcInfo) :
    scanStat statCalls (k.line comm) i = (18,k.filled i) := by
  rw [(k.scans_line h).scanStat i, stored_eq]
  simp only [item_int k (n := 4) rfl, item_int k (n := 5) rfl, item_int k (n := 7) rfl,
    item_long k (n := 24) rfl, item_ulong]
  rfl

/-- The documented fields are in the members of their names, and the data region is reported as
they bound it. -/
structure InPlace (k : KernelStat) (comm : Text) : Prop where
  scan : ∀ i, scanStat statCalls (k.line comm) i = (18,k.placed i)
  region : ∀ sys i, ProcOption.memData.reported sys (scanStat statCalls (k.line comm) i).2 =
    .ok (hexShowBase (k.field 45).toNat ++ "  -  ".toList ++ hexShowBase (k.field 46).toNat)

lemma asUInt64_inj {m n : ℕ} (hm : fieldType m = .ulong) (hn : fieldType n = .ulong)
    (h : asUInt64 (k.field m) = asUInt64 (k.field n)) : k.field m = k.field n := by
  have hmt := k.typed m
  have hnt := k.typed n
  rw [hm] at hmt
  rw [hn] at hnt
  simp only [FieldType.Holds] at hmt hnt
  have h := congrArg UInt64.toNat h
  rw [toNat_asUInt64, toNat_asUInt64] at h
  omega

lemma toNat_field {n : ℕ} (h : fieldType n = .ulong) :
    (asUInt64 (k.field n)).toNat = (k.field n).toNat := by
  have ht := k.typed n
  rw [h] at ht
  simp only [FieldType.Holds] at ht
  rw [toNat_asUInt64]
  omega

/-- The fields are all in place exactly when the data segment is empty, ends where the heap
begins, and does not end at the address that stands for an instruction pointer. -/
theorem inPlace_iff (k : KernelStat) {comm : Text} (h : ∀ c ∈ comm, isspace c = false) :
    k.InPlace comm ↔
      k.field 45 = k.field 46 ∧ k.field 46 = k.field 47 ∧ k.field 46 ≠ 33 := by
  have hregion (sys : System) (i : ProcInfo) :
      ProcOption.memData.reported sys (scanStat statCalls (k.line comm) i).2 =
        .ok (formatRange (asUInt64 (k.field 46)) (asUInt64 (k.field 47))) := by
    rw [ProcOption.reported_eq, ProcOption.text_memData, k.scanStat_line h]
    rfl
  have hpointer : asUInt64 (k.field 46) = INST_POINTER ↔ k.field 46 = 33 := by
    rw [← UInt64.toNat_inj, toNat_field k rfl]
    change (k.field 46).toNat = 33 ↔ _
    omega
  constructor
  · rintro ⟨hscan,htext⟩
    have hi := (k.scanStat_line h default).symm.trans (hscan default)
    have hbegin : k.field 46 = k.field 45 :=
      asUInt64_inj k rfl rfl (congrArg (fun r => r.2.databegin) hi)
    have hend : k.field 47 = k.field 46 :=
      asUInt64_inj k rfl rfl (congrArg (fun r => r.2.dataend) hi)
    refine ⟨hbegin.symm,hend.symm,fun h33 => ?_⟩
    have ht := Except.ok.inj ((hregion default default).symm.trans (htext default default))
    rw [hend, formatRange, if_neg (by simpa using hpointer.mpr h33), toNat_field k rfl, hbegin,
      List.append_nil, List.append_assoc] at ht
    exact absurd (List.self_eq_append_right.mp ht) (by simp)
  · rintro ⟨hbegin,hend,h33⟩
    refine ⟨fun i => ?_,fun sys i => ?_⟩
    · rw [k.scanStat_line h, filled, ← hend, ← hbegin]
      simp only [placed, ← hbegin]
    · rw [hregion, ← hend, formatRange, if_pos (fun he => h33 (hpointer.mp he)), toNat_field k rfl,
        hbegin, List.append_assoc]

/-- A process without a data segment; every other field holds its own number. -/
def noData : KernelStat where
  state := 'S'
  field n := if 45 ≤ n ∧ n ≤ 47 then 0 else (n % 64 : ℕ)
  more := " 48 49 50 51 52\n".toList
  letter := by decide
  typed n := (fieldType n).holds_of_small (by split <;> omega) (by split <;> omega)
  ends := blankOrEnd_cons (by decide) _

theorem inPlace_noData : noData.InPlace "md".toList :=
  (inPlace_iff noData (by simp [isspace])).mpr ⟨rfl,rfl,by decide⟩

/-- Every numeric field holds its own number. -/
def countingFields : KernelStat where
  state := 'S'
  field n := (n % 64 : ℕ)
  more := "\n".toList
  letter := by decide
  typed n := (fieldType n).holds_of_small (by omega) (by omega)
  ends := blankOrEnd_cons (by decide) _

theorem not_inPlace_counting : ¬ countingFields.InPlace ['x'] := by
  intro h
  have hname : ∀ c ∈ ['x'], isspace c = false := by simp [isspace]
  have hi := (countingFields.scanStat_line hname default).symm.trans (h.scan default)
  have hbegin : asUInt64 46 = asUInt64 45 := congrArg (fun r => r.2.databegin) hi
  exact absurd hbegin (by decide)

end KernelStat

end Cphf
