import Cphf.Readers.Drivers

/-! The lines of `/proc/tty/drivers` as the kernel writes them: what `buildDeviceMap` takes from
complete lines and from one that is cut off, and which drivers its map finds again. -/
namespace Cphf
open CLib

/-- A line of the table: a driver, its device under `/dev`, a major number, a minor number or a
range of them, and a type; spaces stand between the fields. -/
structure DriverLine where
  driver : Text
  name : Text
  major : ℕ
  min : ℕ
  max : Option ℕ
  type : Text
  pad : Fin 4 → ℕ
  driver_isWord : IsWord driver
  name_word : ∀ c ∈ name, isspace c = false
  type_isWord : IsWord type
  type_length : 2 ≤ type.length
  type_head : type.head? ≠ some '-'
  major_lt : major < 2^64
  min_lt : min < 2^64
  max_lt : ∀ m, max = some m → m < 2^64

/-- The spaces between two fields. -/
def gap (pad : ℕ) : Text := List.replicate (pad+1) ' '

theorem gap_blanks (pad : ℕ) : Blanks (gap pad) := fun c hc => by
  rw [List.eq_of_mem_replicate hc]
  rfl

theorem gap_blankOrEnd (pad : ℕ) (s : Text) : BlankOrEnd (gap pad ++ s) :=
  blankOrEnd_cons (by decide) _

/-- The type is read to its end or to the end of the stream, or is not there. -/
lemma type_cut {s g w cut : Text} (hs : Blanks s) (hg : Blanks g) (hw : IsWord w)
    (hcut : cut <+: g ++ (w ++ s)) (d : Driver) :
    (Option.bind (extractWord cut) fun x => some (d,x.2)) = none ∨
      ∃ rest, Blanks rest ∧
        (Option.bind (extractWord cut) fun x => some (d,x.2)) = some (d,rest) := by
  rcases extractWord_cut hg hw (blankOrEnd_of_blanks hs) hcut with
    ⟨_,h⟩ | ⟨w',_,_,_,h⟩ | ⟨c,hc,_,h⟩
  · exact .inl (by rw [h]; rfl)
  · exact .inr ⟨[],by simp [Blanks],by rw [h]; rfl⟩
  · exact .inr ⟨c,fun d hd => hs d (hc.subset hd),by rw [h]; rfl⟩

namespace DriverLine
variable (l : DriverLine)

/-- The last minor number of the line. -/
def last : ℕ := l.max.getD l.min

/-- What the line says of its driver. -/
def entry : Driver := ⟨l.major,⟨l.min,l.last⟩,l.name⟩

/-- The line from the end of its first minor number on. -/
def rangeThen (s : Text) : Text :=
  match l.max with
  | none => gap (l.pad 3) ++ (l.type ++ s)
  | some m => '-' :: (decimal m ++ (gap (l.pad 3) ++ (l.type ++ s)))

/-- The line from the end of its device on. -/
def numbersThen (s : Text) : Text :=
  gap (l.pad 1) ++ (decimal l.major ++ (gap (l.pad 2) ++ (decimal l.min ++ l.rangeThen s)))

def device : Text := "/dev/".toList ++ l.name

/-- The line and what follows it. -/
def followedBy (s : Text) : Text :=
  l.driver ++ (gap (l.pad 0) ++ (l.device ++ l.numbersThen s))

def text : Text := l.followedBy ['\n']

theorem followedBy_append (s t : Text) : l.followedBy s ++ t = l.followedBy (s ++ t) := by
  unfold followedBy numbersThen rangeThen
  cases l.max <;> simp

theorem device_isWord : IsWord l.device := by
  refine ⟨List.append_ne_nil_of_left_ne_nil (by decide) _,fun c hc => ?_⟩
  have hdev : "/dev/".toList.all (!isspace ·) = true := by decide
  rw [device, List.mem_append] at hc
  rcases hc with hc | hc
  · simpa using List.all_eq_true.mp hdev c hc
  · exact l.name_word c hc

theorem device_length : l.device.length = 5+l.name.length := by
  have hdev : "/dev/".toList.length = 5 := by decide
  rw [device, List.length_append, hdev]

theorem device_drop : l.device.drop 5 = l.name := List.drop_left' (by decide)

theorem rangeThen_head (s : Text) : ∀ c ∈ (l.rangeThen s).head?, c.isDigit = false := by
  unfold rangeThen
  intro c hc
  cases hm : l.max with
  | none =>
    rw [hm] at hc
    cases hc
    rfl
  | some m =>
    rw [hm] at hc
    cases hc
    rfl

theorem gap_head (pad : ℕ) (s : Text) : ∀ c ∈ (gap pad ++ s).head?, c.isDigit = false := by
  intro c hc
  cases hc
  rfl

/-- The type apart from its first character. -/
theorem type_eq : ∃ c t, l.type = c :: t ∧ c ≠ '-' ∧ isspace c = false ∧ IsWord t := by
  have hlen := l.type_length
  have hhead := l.type_head
  have hw := l.type_isWord.2
  cases ht : l.type with
  | nil => simp [ht] at hlen
  | cons c t =>
    rw [ht] at hlen hhead hw
    refine ⟨c,t,rfl,by simpa using hhead,hw c (by simp),?_,fun d hd => hw d (by simp [hd])⟩
    rintro rfl
    simp at hlen

/-- The numbers of a line are read to its end. -/
theorem readNumbers_line {s : Text} (hs : BlankOrEnd s) (name : Text) :
    readNumbers name (l.numbersThen s) = some (⟨l.major,⟨l.min,l.last⟩,name⟩,s) := by
  have hmajor := extractUnsigned_field (gap_blanks (l.pad 1)) l.major_lt
    (gap_head (l.pad 2) (decimal l.min ++ l.rangeThen s))
  have hmin := extractUnsigned_field (gap_blanks (l.pad 2)) l.min_lt (l.rangeThen_head s)
  unfold readNumbers numbersThen
  rw [hmajor]
  dsimp only [Option.bind_eq_bind, Option.bind_some]
  rw [hmin]
  dsimp only [Option.bind_some]
  unfold rangeThen last
  cases hmax : l.max with
  | none =>
    obtain ⟨c,t,ht,hc,hcs,hword⟩ := l.type_eq
    have hchar := extractChar_field (gap_blanks (l.pad 3)) hcs (t ++ s)
    have htype := extractWord_field (g := []) (by simp [Blanks]) hword hs
    dsimp only
    rw [ht, List.cons_append, hchar]
    dsimp only [Option.bind_some]
    rw [if_neg hc, show t ++ s = [] ++ (t ++ s) from rfl, htype]
    rfl
  | some m =>
    have hchar := extractChar_field (g := []) (by simp [Blanks]) (c := '-') rfl
      (decimal m ++ (gap (l.pad 3) ++ (l.type ++ s)))
    have hm := extractUnsigned_field (g := []) (by simp [Blanks]) (l.max_lt m hmax)
      (gap_head (l.pad 3) (l.type ++ s))
    have htype := extractWord_field (gap_blanks (l.pad 3)) l.type_isWord hs
    dsimp only
    rw [List.nil_append] at hchar hm
    rw [hchar]
    dsimp only [Option.bind_some]
    rw [if_pos rfl, hm]
    dsimp only [Option.bind_some]
    rw [htype]
    rfl

/-- A complete line is presented as it says. -/
theorem readDriver_line {s : Text} (hs : BlankOrEnd s) :
    readDriver (l.followedBy s) = .ok (some (l.entry,s)) := by
  have hdriver := extractWord_field (g := []) (by simp [Blanks]) l.driver_isWord
    (gap_blankOrEnd (l.pad 0) (l.device ++ l.numbersThen s))
  have hdevice := extractWord_field (gap_blanks (l.pad 0)) l.device_isWord
    (gap_blankOrEnd (l.pad 1) (decimal l.major ++ (gap (l.pad 2) ++ (decimal l.min ++ l.rangeThen s))))
  rw [List.nil_append] at hdriver
  rw [readDriver_eq, followedBy, hdriver]
  dsimp only
  unfold numbersThen
  rw [hdevice]
  dsimp only
  rw [if_neg (by rw [device_length]; omega), device_drop]
  exact congrArg _ (l.readNumbers_line hs l.name)

/-- Numbers that are cut off are not presented, or else as the line says. -/
theorem readNumbers_cut {s cut : Text} (hs : Blanks s) (name : Text)
    (hcut : cut <+: l.numbersThen s) : readNumbers name cut = none ∨
      ∃ rest, Blanks rest ∧ readNumbers name cut = some (⟨l.major,⟨l.min,l.last⟩,name⟩,rest) := by
  have hnil : Blanks [] := by simp [Blanks]
  unfold readNumbers
  rcases extractUnsigned_cut (gap_blanks (l.pad 1)) l.major_lt (gap_head _ _) hcut with
    h | ⟨v,h⟩ | ⟨c₁,hc₁,h⟩
  · exact .inl (by rw [h]; rfl)
  · exact .inl (by rw [h]; rfl)
  rw [h]
  dsimp only [Option.bind_eq_bind, Option.bind_some]
  rcases extractUnsigned_cut (gap_blanks (l.pad 2)) l.min_lt (l.rangeThen_head s) hc₁ with
    h | ⟨v,h⟩ | ⟨c₂,hc₂,h⟩
  · exact .inl (by rw [h]; rfl)
  · exact .inl (by rw [h]; rfl)
  rw [h]
  dsimp only [Option.bind_some]
  unfold rangeThen at hc₂
  unfold last
  cases hmax : l.max with
  | none =>
    rw [hmax] at hc₂
    obtain ⟨c,t,ht,hc,hcs,hword⟩ := l.type_eq
    rw [ht, List.cons_append] at hc₂
    rcases extractChar_cut (gap_blanks (l.pad 3)) hcs hc₂ with h | ⟨c₃,hc₃,h⟩
    · exact .inl (by rw [h]; rfl)
    · rw [h]
      dsimp only [Option.bind_some]
      rw [if_neg hc]
      exact type_cut hs hnil hword hc₃ _
  | some m =>
    rw [hmax] at hc₂
    rcases extractChar_cut hnil (c := '-') rfl hc₂ with h | ⟨c₃,hc₃,h⟩
    · exact .inl (by rw [h]; rfl)
    · rw [h]
      dsimp only [Option.bind_some]
      rw [if_pos rfl]
      rcases extractUnsigned_cut hnil (l.max_lt m hmax) (gap_head _ _) hc₃ with
        h | ⟨v,h⟩ | ⟨c₄,hc₄,h⟩
      · exact .inl (by rw [h]; rfl)
      · exact .inl (by rw [h]; rfl)
      · rw [h]
        dsimp only [Option.bind_some]
        exact type_cut hs (gap_blanks (l.pad 3)) l.type_isWord hc₄ _

/-- The line is cut off within the five characters that `substr(5)` drops. -/
def CutInDev (cut : Text) : Prop :=
  l.driver.length+(l.pad 0+1) < cut.length ∧ cut.length < l.driver.length+(l.pad 0+1)+5

instance (cut : Text) : Decidable (l.CutInDev cut) := inferInstanceAs (Decidable (_ ∧ _))

/-- A line that is cut off raises the exception of `substr`, is not presented, or else is
presented as it says. -/
theorem readDriver_cut {s cut : Text} (hs : Blanks s) (hcut : cut <+: l.followedBy s) :
    (l.CutInDev cut ∧ readDriver cut = .error .outOfRange) ∨
    (¬ l.CutInDev cut ∧ (readDriver cut = .ok none ∨
      ∃ rest, Blanks rest ∧ readDriver cut = .ok (some (l.entry,rest)))) := by
  have hnil : Blanks [] := by simp [Blanks]
  have hgap : ∀ pad, (gap pad).length = pad+1 := by simp [gap]
  have hdev := l.device_length
  unfold CutInDev
  rw [readDriver_eq]
  rcases extractWord_cut hnil l.driver_isWord (gap_blankOrEnd _ _) hcut with
    ⟨hc,h⟩ | ⟨w',_,hc,he,h⟩ | ⟨c₁,hc₁,he,h⟩
  · have hlen := hc.length_le
    rw [h]
    exact .inr ⟨fun hlt => by rw [List.length_nil] at hlen; omega,.inl rfl⟩
  · have hlen := hc.length_le
    rw [h]
    refine .inr ⟨fun hlt => ?_,.inl rfl⟩
    rw [he, List.nil_append] at hlt
    omega
  rw [h]
  dsimp only
  have hlen₁ : cut.length = l.driver.length+c₁.length := by simp [he]
  rcases extractWord_cut (gap_blanks (l.pad 0)) l.device_isWord (gap_blankOrEnd _ _) hc₁ with
    ⟨hc,h⟩ | ⟨w',hne,hc,he,h⟩ | ⟨c₂,hc₂,he,h⟩
  · have hlen := hc.length_le
    rw [hgap] at hlen
    rw [h]
    exact .inr ⟨fun hlt => by omega,.inl rfl⟩
  · have hpos := List.length_pos_of_ne_nil hne
    have hlen₂ : c₁.length = l.pad 0+1+w'.length := by simp [he, hgap]
    rw [h]
    dsimp only
    by_cases hw : w'.length < 5
    · rw [if_pos hw]
      exact .inl ⟨⟨by omega,by omega⟩,rfl⟩
    · rw [if_neg hw]
      exact .inr ⟨fun hlt => by omega,.inl rfl⟩
  · have hlen₂ : c₁.length = l.pad 0+1+(l.device.length+c₂.length) := by simp [he, hgap]
    rw [h]
    dsimp only
    rw [if_neg (by omega), device_drop]
    refine .inr ⟨fun hlt => by omega,?_⟩
    rcases l.readNumbers_cut hs l.name hc₂ with h | ⟨rest,hrest,h⟩
    · exact .inl (by rw [h])
    · exact .inr ⟨rest,hrest,by rw [h]; rfl⟩

end DriverLine

end Cphf
