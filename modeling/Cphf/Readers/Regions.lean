import Cphf.Readers.Numbers
import Cphf.CLib.Hexadecimal

/-! Memory regions. `ProcReader::format` leaves out an end that equals `INST_POINTER`, which is an
address like any other. -/
namespace Cphf
open CLib

/-- The addresses that a region option reports. -/
def ProcOption.region (info : ProcInfo) : ProcOption → Option (UInt64 × UInt64)
  | .memText => some (info.textbegin,info.textend)
  | .memData => some (info.databegin,info.dataend)
  | .memStack => some (info.stackbegin,info.esp)
  | _ => none

theorem ProcOption.reported_region {sys : System} {info : ProcInfo} {o : ProcOption}
    {r : UInt64 × UInt64} (h : o.region info = some r) :
    o.reported sys info = .ok (formatRange r.1 r.2) := by
  rw [reported_eq]
  cases o with
  | memText | memData | memStack => cases h; rfl
  | command | ppid | procgid | username | uid | ugidName | ugid | startTime | cpuTime | state
  | device | vms | rms | instPtr | perms => cases h

theorem ProcOption.reported_instPtr (sys : System) (info : ProcInfo) :
    instPtr.reported sys info = .ok (hexShowBase info.epi.toNat) := by
  rw [reported_eq]
  change Except.ok (formatRange info.epi INST_POINTER) = _
  rw [formatRange, if_neg (not_not.mpr rfl), List.append_nil]

/-- Both addresses and what stands between them. -/
def regionText (r : UInt64 × UInt64) : Text :=
  hexShowBase r.1.toNat ++ "  -  ".toList ++ hexShowBase r.2.toNat

/-- The two addresses of a region, read from its text. -/
def parseRegion (s : Text) : Option (ℕ × ℕ) :=
  if (dropWord s).take 5 = "  -  ".toList then
    (parseHex (takeWord s)).bind fun b => (parseHex ((dropWord s).drop 5)).map fun e => (b,e)
  else none

theorem parseRegion_regionText (r : UInt64 × UInt64) :
    parseRegion (regionText r) = some (r.1.toNat,r.2.toNat) := by
  have hword : ∀ c ∈ hexShowBase r.1.toNat, isspace c = false := fun c => isspace_hexShowBase
  have hsep : "  -  ".toList = [' ',' ','-',' ',' '] := rfl
  have ht : regionText r = hexShowBase r.1.toNat ++ ' ' :: ' ' :: '-' :: ' ' :: ' ' ::
      hexShowBase r.2.toNat := by
    rw [regionText, hsep, List.append_assoc]
    rfl
  have htake : (' ' :: ' ' :: '-' :: ' ' :: ' ' :: hexShowBase r.2.toNat).take 5 =
      [' ',' ','-',' ',' '] := rfl
  rw [parseRegion, ht, takeWord_append hword rfl, dropWord_append hword rfl, hsep, htake, if_pos rfl,
    parseHex_hexShowBase]
  change (some r.1.toNat).bind (fun b => (parseHex (hexShowBase r.2.toNat)).map fun e => (b,e)) = _
  rw [parseHex_hexShowBase]
  rfl

/-- A single address has no blank. -/
theorem regionText_ne_hexShowBase (r : UInt64 × UInt64) (n : ℕ) : regionText r ≠ hexShowBase n := by
  intro h
  have hm : ' ' ∈ hexShowBase n := by
    rw [← h, regionText]
    simp
  exact absurd (isspace_hexShowBase hm) (by decide)

theorem formatRange_eq (r : UInt64 × UInt64) : formatRange r.1 r.2 =
    if r.2 = INST_POINTER then hexShowBase r.1.toNat else regionText r := by
  rw [formatRange, regionText]
  by_cases h : r.2 = INST_POINTER
  · rw [if_pos h, if_neg (not_not.mpr h), List.append_nil]
  · rw [if_neg h, if_pos h, List.append_assoc]

/-- The text of a region can be read back, and is that of no other region and of no single
address. -/
structure RegionTold (sys : System) (info : ProcInfo) (o : ProcOption) (r : UInt64 × UInt64) :
    Prop where
  text : o.reported sys info = .ok (regionText r)
  parse : ∀ t, o.reported sys info = .ok t → parseRegion t = some (r.1.toNat,r.2.toNat)
  apart : ∀ info' o' r', ProcOption.region info' o' = some r' →
    o'.reported sys info' = o.reported sys info → r' = r
  single : ∀ info', ProcOption.instPtr.reported sys info' ≠ o.reported sys info

/-- A region can be read back exactly when it does not end at the address that stands for none. -/
theorem regionTold_iff {sys : System} {info : ProcInfo} {o : ProcOption} {r : UInt64 × UInt64}
    (h : o.region info = some r) : RegionTold sys info o r ↔ r.2 ≠ INST_POINTER := by
  have hr := @ProcOption.reported_region sys info o r h
  rw [formatRange_eq] at hr
  constructor
  · intro ht he
    rw [if_pos he, ht.text] at hr
    exact regionText_ne_hexShowBase r _ (Except.ok.inj hr)
  · intro hne
    rw [if_neg hne] at hr
    refine ⟨hr,?_,?_,?_⟩
    · intro t ht
      rw [← Except.ok.inj (hr.symm.trans ht)]
      exact parseRegion_regionText r
    · intro info' o' r' h' he
      rw [ProcOption.reported_region h', formatRange_eq, hr] at he
      split_ifs at he with h33
      · exact absurd (Except.ok.inj he).symm (regionText_ne_hexShowBase r _)
      · have hp := congrArg parseRegion (Except.ok.inj he)
        rw [parseRegion_regionText, parseRegion_regionText] at hp
        simp only [Option.some.injEq, Prod.mk.injEq, UInt64.toNat_inj] at hp
        exact Prod.ext hp.1 hp.2
    · intro info' he
      rw [ProcOption.reported_instPtr, hr] at he
      exact regionText_ne_hexShowBase r _ (Except.ok.inj he).symm

/-- A process whose stack pointer is 33 reports its stack like an instruction pointer. -/
theorem not_regionTold_33 :
    ¬ RegionTold default { (default : ProcInfo) with stackbegin := 4096, esp := 33 } .memStack
      (4096,33) := by
  intro h
  have hp := h.parse (hexShowBase 4096) rfl
  exact absurd hp (by decide)

theorem regionTold_stack : RegionTold default
    { (default : ProcInfo) with stackbegin := 0x7ffe0bcd7aa0, esp := 0x7ffe0bcd6698 } .memStack
      (0x7ffe0bcd7aa0,0x7ffe0bcd6698) :=
  (regionTold_iff rfl).mpr (by decide)

end Cphf
