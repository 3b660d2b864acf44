import Cphf.Report
import Cphf.CLib.Lines

/-! Reading a report back. When every value fits on one line, the report has one line for each
attribute, and its lines give back the attributes of every process and file. -/
namespace Cphf
open CLib

/-- The width of the labels in the entry of a process and of a file. -/
def labelWidth (proc : Bool) : ℕ := if proc then 23 else 25

/-- The line of an attribute. -/
def attributeLine (proc : Bool) (a : CphfAttribute) : Text :=
  (if proc then [] else ['\t']) ++ (padded (labelWidth proc) a.1.label ++ ' ' :: ' ' :: a.2)

/-- What is printed of an object: whether it is a process, and its attributes. -/
structure Entry where
  proc : Bool
  attributes : List CphfAttribute
  deriving DecidableEq

def CphfFile.entry : CphfFile → Entry
  | .proc pf => ⟨true,pf.attributes⟩
  | .file ulf => ⟨false,ulf.attributes⟩

/-- The lines of an entry, less the blank one that ends it. -/
def Entry.lines (e : Entry) : List Text :=
  (if e.proc then [separator] else []) ++ e.attributes.map (attributeLine e.proc)

/-- The lines of a report. -/
def reportLines (entries : List Entry) : List Text :=
  (entries.map Entry.lines).flatMap (· ++ [[]])

/-- The values of an entry all fit on one line. -/
def Entry.OneLine (e : Entry) : Prop := ∀ a ∈ e.attributes, oneLine a.2 = true

def readAttribute (proc : Bool) (line : Text) : Option CphfAttribute :=
  let body := if proc then line else line.drop 1
  (CphfId.all.find? fun i => padded (labelWidth proc) i.label = body.take (labelWidth proc)).map
    fun i => (i,body.drop (labelWidth proc+2))

/-- The entry with these lines. -/
def readEntry (lines : List Text) : Option Entry :=
  if lines.head? = some separator then
    (lines.tail.mapM (readAttribute true)).map fun l => ⟨true,l⟩
  else (lines.mapM (readAttribute false)).map fun l => ⟨false,l⟩

/-- Cut a report at its newlines and its lines at the blank ones. -/
def readReport (text : Text) : Option (List Entry) :=
  (getlines [] (getlines '\n' text)).mapM readEntry

namespace CphfId

theorem label_oneLine (i : CphfId) : oneLine i.label = true := by
  have h : all.all (fun i => oneLine i.label) = true := by decide +kernel
  exact List.all_eq_true.mp h i i.mem_all

theorem label_length (i : CphfId) : i.label.length ≤ 23 := by
  have h : all.all (fun i => i.label.length ≤ 23) = true := by decide +kernel
  simpa using List.all_eq_true.mp h i i.mem_all

/-- No two labels look alike when they are padded. -/
theorem find_padded (proc : Bool) (i : CphfId) :
    all.find? (fun j => padded (labelWidth proc) j.label = padded (labelWidth proc) i.label) =
      some i := by
  have h : all.all (fun i => all.find? (fun j => padded (labelWidth proc) j.label =
      padded (labelWidth proc) i.label) = some i) = true := by
    cases proc <;> decide +kernel
  simpa using List.all_eq_true.mp h i i.mem_all

end CphfId

theorem padded_length {width : ℕ} {s : Text} (h : s.length ≤ width) :
    (padded width s).length = width := by
  simp [padded, h]

theorem oneLine_padded {s : Text} (h : oneLine s = true) (width : ℕ) :
    oneLine (padded width s) = true := by
  rw [padded, oneLine_append]
  refine ⟨h,List.all_eq_true.mpr fun c hc => ?_⟩
  rw [List.eq_of_mem_replicate hc]
  rfl

section
variable (proc : Bool) (a : CphfAttribute)

lemma label_padded_length : (padded (labelWidth proc) a.1.label).length = labelWidth proc := by
  have h := a.1.label_length
  exact padded_length (by cases proc <;> simp [labelWidth] <;> omega)

/-- An attribute is read from its line. -/
theorem readAttribute_line : readAttribute proc (attributeLine proc a) = some a := by
  have hbody : (if proc then attributeLine proc a else (attributeLine proc a).drop 1) =
      padded (labelWidth proc) a.1.label ++ ' ' :: ' ' :: a.2 := by
    cases proc <;> rfl
  have hlen := label_padded_length proc a
  have hdrop : (padded (labelWidth proc) a.1.label ++ ' ' :: ' ' :: a.2).drop (labelWidth proc+2) =
      a.2 := by
    rw [← List.drop_drop, List.drop_left' hlen]
    rfl
  unfold readAttribute
  dsimp only
  rw [hbody, List.take_left' hlen, CphfId.find_padded, hdrop]
  rfl

theorem attributeLine_ne_nil : attributeLine proc a ≠ [] := by
  intro h
  simp [attributeLine] at h

theorem attributeLine_oneLine (h : oneLine a.2 = true) : oneLine (attributeLine proc a) = true := by
  have hp := oneLine_padded a.1.label_oneLine (labelWidth proc)
  cases proc <;> simp [attributeLine, h, hp]

/-- Printing an attribute of one line gives its line. -/
theorem procLine_eq (h : oneLine a.2 = true) :
    procLine a.1.label a.2 = attributeLine true a ++ ['\n'] := by
  rw [procLine, c_str_of_no_nul (oneLine_iff.mp h).2,
    c_str_of_no_nul (oneLine_iff.mp a.1.label_oneLine).2]
  simp [attributeLine, labelWidth]

theorem fileLine_eq (h : oneLine a.2 = true) :
    fileLine a.1.label a.2 = attributeLine false a ++ ['\n'] := by
  rw [fileLine, c_str_of_no_nul (oneLine_iff.mp h).2,
    c_str_of_no_nul (oneLine_iff.mp a.1.label_oneLine).2]
  simp [attributeLine, labelWidth]

end

theorem readEntry_lines (e : Entry) : readEntry e.lines = some e := by
  have hall : ∀ proc, (e.attributes.map (attributeLine proc)).mapM (readAttribute proc) =
      some e.attributes := by
    intro proc
    induction e.attributes with
    | nil => rfl
    | cons a l ih => simp [readAttribute_line, ih]
  obtain ⟨proc,attributes⟩ := e
  cases proc with
  | true =>
    have hhead : (Entry.lines ⟨true,attributes⟩).head? = some separator := rfl
    unfold readEntry
    rw [if_pos hhead]
    exact congrArg (Option.map _) (hall true)
  | false =>
    have hne : (Entry.lines ⟨false,attributes⟩).head? ≠ some separator := by
      cases attributes with
      | nil => simp [Entry.lines]
      | cons a l =>
        intro h
        have hhead : '\t' = '=' := congrArg (fun o : Option Text => (o.bind List.head?).getD 'x') h
        exact absurd hhead (by decide)
    unfold readEntry
    rw [if_neg hne]
    exact congrArg (Option.map _) (hall false)

theorem Entry.nil_not_mem_lines (e : Entry) : [] ∉ e.lines := by
  intro h
  rcases List.mem_append.mp h with h | h
  · split at h
    · exact absurd (List.mem_singleton.mp h) (by decide)
    · cases h
  · obtain ⟨a,_,ha⟩ := List.mem_map.mp h
    exact attributeLine_ne_nil _ a ha

theorem Entry.lines_oneLine {e : Entry} (h : e.OneLine) : ∀ l ∈ e.lines, oneLine l = true := by
  intro l hl
  rcases List.mem_append.mp hl with hl | hl
  · split at hl
    · rw [List.mem_singleton.mp hl]
      decide
    · cases hl
  · obtain ⟨a,ha,rfl⟩ := List.mem_map.mp hl
    exact attributeLine_oneLine _ a (h a ha)

/-- The lines of a report, each ended by a newline, are cut apart again and read back. -/
theorem readReport_lines {entries : List Entry} (h : ∀ e ∈ entries, e.OneLine) :
    getlines '\n' ((reportLines entries).flatMap (· ++ ['\n'])) = reportLines entries ∧
      readReport ((reportLines entries).flatMap (· ++ ['\n'])) = some entries := by
  have hcut : getlines '\n' ((reportLines entries).flatMap (· ++ ['\n'])) = reportLines entries := by
    apply getlines_flatMap
    intro l hl
    obtain ⟨ls,hls,hl⟩ := List.mem_flatMap.mp hl
    obtain ⟨e,he,rfl⟩ := List.mem_map.mp hls
    rcases List.mem_append.mp hl with hl | hl
    · exact (oneLine_iff.mp (Entry.lines_oneLine (h e he) l hl)).1
    · simp [List.mem_singleton.mp hl]
  refine ⟨hcut,?_⟩
  have hgroups : getlines [] (reportLines entries) = entries.map Entry.lines := by
    apply getlines_flatMap
    intro ls hls
    obtain ⟨e,_,rfl⟩ := List.mem_map.mp hls
    exact e.nil_not_mem_lines
  rw [readReport, hcut, hgroups]
  clear h hcut hgroups
  induction entries with
  | nil => rfl
  | cons e entries ih => simp [readEntry_lines, ih]

/-- Every identifier of the table has its own label. -/
def OwnLabels (attributeFlags : AttributeFlags) : Prop :=
  ∀ i l, attributeFlags.find? i = some l → l = i.label

theorem ownLabels_empty : OwnLabels ∅ := fun _ _ h => by cases h

theorem createAttribMap_ownLabels {attributeFlags : AttributeFlags} (ids : List CphfId)
    (h : OwnLabels attributeFlags) : OwnLabels (createAttribMap ids attributeFlags) := by
  induction ids generalizing attributeFlags with
  | nil => exact h
  | cons j ids ih =>
    apply ih
    intro i l hl
    rw [OMap.find?_insertNew] at hl
    split_ifs at hl with hi
    · subst hi
      cases hj : attributeFlags.find? i with
      | none => simpa [hj] using hl.symm
      | some l' =>
        rw [hj, Option.getD_some] at hl
        exact h i l (hj.trans hl)
    · exact h i l hl

section
variable {attributeFlags : AttributeFlags} (hflags : OwnLabels attributeFlags)
include hflags

theorem printAttributes_lines (proc : Bool) {l : List CphfAttribute} {t : Text}
    (h : ∀ a ∈ l, oneLine a.2 = true)
    (ht : printAttributes attributeFlags (if proc then procLine else fileLine) l = .ok t) :
    t = (l.map (attributeLine proc)).flatMap (· ++ ['\n']) := by
  induction l generalizing t with
  | nil =>
    cases ht
    rfl
  | cons a l ih =>
    rw [List.forall_mem_cons] at h
    unfold printAttributes at ht
    cases hl : attributeFlags.find? a.1 with
    | none =>
      rw [hl] at ht
      cases ht
    | some label =>
      rw [hl] at ht
      obtain ⟨t',ht',he⟩ := bind_eq_ok.mp ht
      cases he
      rw [hflags _ _ hl, ih h.2 ht', List.map_cons, List.flatMap_cons]
      cases proc with
      | true => exact congrArg (· ++ _) (procLine_eq a h.1)
      | false => exact congrArg (· ++ _) (fileLine_eq a h.1)

theorem printFile_lines {f : CphfFile} {t : Text} (h : f.entry.OneLine)
    (ht : printFile attributeFlags f = .ok t) : t = (f.entry.lines ++ [[]]).flatMap (· ++ ['\n']) := by
  cases f with
  | proc pf =>
    obtain ⟨t',ht',he⟩ := bind_eq_ok.mp ht
    cases he
    rw [printAttributes_lines hflags true h ht']
    simp [CphfFile.entry, Entry.lines]
  | file ulf =>
    obtain ⟨t',ht',he⟩ := bind_eq_ok.mp ht
    cases he
    rw [printAttributes_lines hflags false h ht']
    simp [CphfFile.entry, Entry.lines]

theorem printFiles_lines {queue : List CphfFile} {t : Text} (h : ∀ f ∈ queue, f.entry.OneLine)
    (ht : printFiles attributeFlags queue = .ok t) :
    t = (reportLines (queue.map CphfFile.entry)).flatMap (· ++ ['\n']) := by
  induction queue generalizing t with
  | nil =>
    cases ht
    rfl
  | cons f queue ih =>
    rw [List.forall_mem_cons] at h
    obtain ⟨t₁,ht₁,hrest⟩ := bind_eq_ok.mp ht
    obtain ⟨t₂,ht₂,he⟩ := bind_eq_ok.mp hrest
    cases he
    rw [printFile_lines hflags h.1 ht₁, ih h.2 ht₂]
    simp [reportLines]

/-- A report whose values are lines has the lines of its attributes and is read back. -/
theorem printFiles_readBack {queue : List CphfFile} {t : Text} (h : ∀ f ∈ queue, f.entry.OneLine)
    (ht : printFiles attributeFlags queue = .ok t) :
    getlines '\n' t = reportLines (queue.map CphfFile.entry) ∧
      readReport t = some (queue.map CphfFile.entry) := by
  rw [printFiles_lines hflags h ht]
  apply readReport_lines
  intro e he
  obtain ⟨f,hf,rfl⟩ := List.mem_map.mp he
  exact h f hf

end

end Cphf
