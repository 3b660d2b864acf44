import Cphf.Readers.KernelStat
import Cphf.Readers.Members
import Cphf.CLib.Numerals

/-! What the command name of a process does to the other fields of its stat file. A name with a
blank is read as two fields or more: its second word gives the state, and the numerals after it
land in the members that the next conversions fill, until the calls are stuck at the closing
parenthesis. -/
namespace Cphf
open CLib

/-- What a call stores when its conversions come upon these numerals and lone signs, and what is
left of them for the calls after it. -/
def landCall : List Slot → List (Option ℤ) → List (StatField × Item) × List (Option ℤ)
  | [],xs => ([],xs)
  | _ :: _,[] => ([],[])
  | _ :: _,none :: xs => ([],xs)
  | .skip _ :: slots,some _ :: xs => landCall slots xs
  | .store f :: slots,some v :: xs =>
    ((f,numeralOf f.conversion v) :: (landCall slots xs).1,(landCall slots xs).2)

def land : List (List Slot) → List (Option ℤ) → List (StatField × Item)
  | [],_ => []
  | slots :: calls,xs => (landCall slots xs).1 ++ land calls (landCall slots xs).2

def Slot.numeric (slot : Slot) : Bool :=
  match slot.format.2 with
  | .signed _ => true
  | .unsigned _ => true
  | _ => false

lemma Slot.convert_numeric {slot : Slot} (h : slot.numeric = true) (t : Text) :
    convert slot.format.2 t = convertNumeral slot.format.2 t := by
  unfold numeric at h
  cases hk : slot.format.2 with
  | signed long => rfl
  | unsigned long => rfl
  | char => simp [hk] at h
  | word => simp [hk] at h
  | unknown => simp [hk] at h

/-- Directives that store what lands in their slots, and leave the rest. -/
def Lands (ds : List Directive) (slots : List Slot) : Prop :=
  ∀ s xs, Lexes s xs → ∃ items e rest, scan ds s = ⟨items,e,rest⟩ ∧ e ≠ some .input ∧
    (slots.filterMap Slot.stored).zip items = (landCall slots xs).1 ∧
    (landCall slots xs).1.length = items.length ∧ Lexes rest (landCall slots xs).2

lemma lands_nil : Lands [] [] := fun s xs h => ⟨[],none,s,rfl,by simp,rfl,rfl,h⟩

lemma Lands.space {ds : List Directive} {slots : List Slot} (h : Lands ds slots) :
    Lands (.space :: ds) slots := fun s xs hs => by
  rw [scan_space]
  exact h _ _ hs.skipSpace

/-- One conversion more: it takes a numeral, or the call ends. -/
lemma Lands.cons {slot : Slot} (hn : slot.numeric = true) {ds : List Directive}
    {slots : List Slot} (h : Lands ds slots) :
    Lands (.convert slot.format.1 slot.format.2 :: ds) (slot :: slots) := by
  intro s xs hs
  have hk := Slot.convert_numeric hn
  cases xs with
  | nil =>
    cases hs with
    | stuck hs =>
      exact ⟨[],some .matching,skipSpace s,scan_convert_error (hs.convert hk) ds,by simp,by simp
        [landCall],by simp [landCall],(Lexes.stuck hs).skipSpace⟩
  | cons x xs =>
    cases x with
    | none =>
      obtain ⟨rest,hc,hrest⟩ := hs.convert_sign hk
      exact ⟨[],some .matching,rest,scan_convert_error hc ds,by simp,by simp [landCall],
        by simp [landCall],hrest⟩
    | some v =>
      obtain ⟨rest,hc,hrest⟩ := hs.convert_numeral hk
      obtain ⟨items,e,rest',hscan,he,hzip,hlen,hlex⟩ := h rest xs hrest
      cases slot with
      | skip k => exact ⟨items,e,rest',by rw [← hscan]; exact scan_suppress_ok hc ds,he,hzip,hlen,hlex⟩
      | store f =>
        refine ⟨numeralOf f.conversion v :: items,e,rest',?_,he,?_,?_,hlex⟩
        · rw [show (Slot.store f).format.1 = false from rfl, scan_convert_ok hc, hscan]
          rfl
        · exact congrArg ((f,numeralOf f.conversion v) :: ·) hzip
        · simp [landCall, hlen]

theorem lands_fields {slots : List Slot} (hn : slots.all Slot.numeric = true) :
    Lands (fieldDirectives (slots.map Slot.format)) slots := by
  induction slots with
  | nil => exact lands_nil
  | cons slot slots ih =>
    rw [List.all_cons, Bool.and_eq_true] at hn
    have ih := ih hn.2
    cases slots with
    | nil => exact ih.cons hn.1
    | cons slot' slots => exact ih.space.cons hn.1

/-- Calls whose formats have only numeric conversions. -/
theorem scans_land {calls : List (Text × List StatField)} {slots : List (List Slot)}
    (hcalls : calls.map (fun c => (directives .plain c.1,c.2)) = slots.map callOf)
    (hn : slots.all (·.all Slot.numeric) = true) {s : Text} {xs : List (Option ℤ)}
    (h : Lexes s xs) : Scans calls s (land slots xs) := by
  induction slots generalizing calls s xs with
  | nil =>
    rw [List.map_nil, List.map_eq_nil_iff] at hcalls
    subst hcalls
    exact ⟨rfl,rfl⟩
  | cons g slots ih =>
    cases calls with
    | nil => simp at hcalls
    | cons c calls =>
      obtain ⟨fmt,fields⟩ := c
      simp only [List.map_cons, List.cons.injEq] at hcalls
      simp only [List.all_cons, Bool.and_eq_true] at hn
      have hd : directives .plain fmt = (callOf g).1 := congrArg Prod.fst hcalls.1
      have hf : fields = g.filterMap Slot.stored := congrArg Prod.snd hcalls.1
      obtain ⟨items,e,rest,hscan,he,hzip,hlen,hrest⟩ := lands_fields hn.1 s xs h
      exact Scans.cons (by rw [fscanf, hd]; exact hscan) he (by rw [hf, hzip]) hlen
        (ih hcalls.2 hn.2 hrest)

/-- What the calls come upon instead of the state, if the name has a blank: what follows its
first word, and the parenthesis. -/
def spill (comm : Text) : Text := skipSpace (dropWord comm) ++ [')']

/-- The slots of the first call after the state. -/
def afterState : List Slot := (statSlots.headD []).drop 3

/-- The slots of the calls after the state. -/
def laterSlots : List (List Slot) := afterState :: statSlots.tail

/-- The items that a name with a blank has stored, in the members they land in. -/
def spilled (comm : Text) : List (StatField × Item) :=
  match spill comm with
  | [] => []
  | c :: t => (.state,.char c) :: land laterSlots (lexemes t.length t)

theorem landCall_length_le (slots : List Slot) (xs : List (Option ℤ)) :
    (landCall slots xs).1.length + (landCall slots xs).2.length ≤ xs.length := by
  fun_induction landCall slots xs with
  | case1 xs => simp
  | case2 => simp
  | case3 slot slots xs => simp
  | case4 k slots v xs ih => exact ih.trans (Nat.le_succ _)
  | case5 f slots v xs ih =>
    simp only [List.length_cons]
    omega

theorem land_length_le (calls : List (List Slot)) (xs : List (Option ℤ)) :
    (land calls xs).length ≤ xs.length := by
  induction calls generalizing xs with
  | nil => exact Nat.zero_le _
  | cons slots calls ih =>
    have hcall := landCall_length_le slots xs
    have htail := ih (landCall slots xs).2
    rw [land, List.length_append]
    omega

lemma dropWord_ne_nil {comm : Text} (h : ∃ c ∈ comm, isspace c = true) : dropWord comm ≠ [] := by
  obtain ⟨c,hc,hs⟩ := h
  intro he
  have := List.dropWhile_eq_nil_iff.mp he c hc
  simp [hs] at this

/-- A short name stores fewer items than the members there are. -/
theorem spilled_length_le {comm : Text} (h : ∃ c ∈ comm, isspace c = true) :
    (spilled comm).length ≤ comm.length := by
  have hblank : (skipSpace (dropWord comm)).length < comm.length := by
    have hword := dropWord_length_le comm
    cases hd : dropWord comm with
    | nil => exact absurd hd (dropWord_ne_nil h)
    | cons c s =>
      have hc : isspace c = true := by
        have := List.head?_dropWhile_not (fun c => !isspace c) comm
        rw [← dropWord, hd] at this
        simpa using this
      have hs := skipSpace_length_le s
      rw [hd, List.length_cons] at hword
      have : skipSpace (c :: s) = skipSpace s := by simp [skipSpace, hc]
      rw [this]
      omega
  have hspill : (spill comm).length ≤ comm.length := by
    rw [spill, List.length_append]
    exact hblank
  unfold spilled
  cases ht : spill comm with
  | nil => exact Nat.zero_le _
  | cons c t =>
    have hland := land_length_le laterSlots (lexemes t.length t)
    have hlex := lexemes_length_le t.length t
    rw [ht, List.length_cons] at hspill
    simp only [List.length_cons]
    omega

namespace KernelStat
variable (k : KernelStat) {comm : Text}

/-- The fields after the state, and the rest of the line. -/
def tail : Text := ' ' :: (unwords ((List.range' 4 44).map (k.print [])) ++ k.more)

lemma print_congr {n : ℕ} (h : n ≠ 2) (comm comm' : Text) : k.print comm n = k.print comm' n := by
  unfold print
  split <;> first | contradiction | rfl

lemma line_split : k.line comm =
    signedDecimal (k.field 1) ++ ' ' :: '(' :: (comm ++ ')' :: ' ' :: k.state :: k.tail) := by
  have hmap : (List.range' 4 44).map (k.print comm) = (List.range' 4 44).map (k.print []) := by
    refine List.map_congr_left fun n hn => k.print_congr ?_ comm []
    have := (List.mem_range'_1.mp hn).1
    omega
  have hfields : (List.range' 1 47).map (k.print comm) =
      [signedDecimal (k.field 1),'(' :: comm ++ [')'],[k.state]] ++
        (List.range' 4 44).map (k.print []) := by
    rw [← hmap]
    rfl
  rw [line, hfields, unwords_append (by simp) (by simp), tail]
  simp [unwords]

lemma stuck_of_isAlpha {c : Char} (h : c.isAlpha = true) (s : Text) : Stuck (' ' :: c :: s) := by
  have hskip : skipSpace (' ' :: c :: s) = c :: s := by
    simp [skipSpace, isspace_of_isAlpha h, show isspace ' ' = true from rfl]
  have hd : c.isDigit = false := by
    have hvals : 'A'.toNat = 65 ∧ 'a'.toNat = 97 ∧ '9'.toNat = 57 := by decide
    cases hd : c.isDigit with
    | false => rfl
    | true =>
      simp only [Char.isAlpha, Char.isUpper, Char.isLower, Char.isDigit, Bool.or_eq_true,
        Bool.and_eq_true, decide_eq_true_eq, ge_iff_le, UInt32.le_iff_toNat_le] at h hd
      change ('A'.toNat ≤ c.toNat ∧ _) ∨ ('a'.toNat ≤ c.toNat ∧ _) at h
      have hle : c.toNat ≤ '9'.toNat := hd.2
      omega
  rw [Stuck, hskip, splitNumeral_cons_of_ne]
  · simp [hd]
  · rintro rfl
    exact absurd h (by decide)
  · rintro rfl
    exact absurd h (by decide)

/-- The calls on a line whose command name has a blank. -/
theorem scans_spilled (h : ∃ c ∈ comm, isspace c = true) :
    Scans statCalls (k.line comm) (spilled comm) := by
  obtain ⟨c,t,ht⟩ := List.exists_cons_of_ne_nil (show spill comm ≠ [] by simp [spill])
  have hlex : Lexes (t ++ ' ' :: k.state :: k.tail) (lexemes t.length t) :=
    lexes_lexemes (blankOrEnd_cons (by decide) _) (stuck_of_isAlpha k.letter _) le_rfl
  -- the numeric conversions of the first call, after the state
  have hlands : Lands (.space :: fieldDirectives (afterState.map Slot.format)) afterState :=
    (lands_fields (by decide)).space
  obtain ⟨items,e,rest,hscan,he,hzip,hlen,hrest⟩ := hlands _ _ hlex
  have hword : convert .word ('(' :: (comm ++ ')' :: ' ' :: k.state :: k.tail)) =
      (.ok (.word (takeWord ('(' :: (comm ++ ')' :: ' ' :: k.state :: k.tail)))),
        dropWord comm ++ ')' :: ' ' :: k.state :: k.tail) := by
    rw [← dropWord_append_of_ne (dropWord_ne_nil h)]
    rfl
  have hspill : skipSpace (dropWord comm ++ ')' :: ' ' :: k.state :: k.tail) =
      c :: (t ++ ' ' :: k.state :: k.tail) := by
    rw [skipSpace_append_cons _ (by decide), ← List.cons_append, ← ht, spill, List.append_assoc]
    rfl
  have hfirst : scan (.convert true (.signed false) :: .space :: .convert true .word :: .space ::
      .convert false .char :: .space :: fieldDirectives (afterState.map Slot.format))
      (k.line comm) = ⟨.char c :: items,e,rest⟩ := by
    have hpid := (reads_integer (k := .signed false) (fun _ => rfl) (k.field 1)).convert
      (' ' :: '(' :: (comm ++ ')' :: ' ' :: k.state :: k.tail)) (blankOrEnd_cons (by decide) _)
    have hopen : skipSpace (' ' :: '(' :: (comm ++ ')' :: ' ' :: k.state :: k.tail)) =
        '(' :: (comm ++ ')' :: ' ' :: k.state :: k.tail) := rfl
    rw [line_split, scan_suppress_ok hpid, scan_space, hopen, scan_suppress_ok hword, scan_space,
      hspill, scan_convert_ok (convert_char_cons c _), hscan]
  have hcalls := List.cons.inj statCalls_eq
  have hd := congrArg Prod.fst hcalls.1
  have hlater := scans_land hcalls.2 (by decide) hrest
  have hall : Scans statCalls (k.line comm)
      (((.state,.char c) :: (landCall afterState (lexemes t.length t)).1) ++
        land statSlots.tail (landCall afterState (lexemes t.length t)).2) :=
    Scans.cons ((congrArg (scan · (k.line comm)) hd).trans hfirst) he
      (congrArg ((StatField.state,Item.char c) :: ·) hzip) (congrArg (· + 1) hlen) hlater
  rw [spilled, ht]
  exact hall

end KernelStat

theorem landCall_fields (slots : List Slot) (xs : List (Option ℤ)) :
    ((landCall slots xs).1.map Prod.fst).Sublist (slots.filterMap Slot.stored) := by
  fun_induction landCall slots xs with
  | case1 xs => exact List.Sublist.refl _
  | case2 => exact List.nil_sublist _
  | case3 slot slots xs => exact List.nil_sublist _
  | case4 k slots v xs ih => exact ih
  | case5 f slots v xs ih => exact ih.cons_cons f

theorem land_fields (calls : List (List Slot)) (xs : List (Option ℤ)) :
    ((land calls xs).map Prod.fst).Sublist (calls.flatMap (·.filterMap Slot.stored)) := by
  induction calls generalizing xs with
  | nil => exact List.Sublist.refl _
  | cons slots calls ih =>
    rw [land, List.map_append, List.flatMap_cons]
    exact (landCall_fields slots xs).append (ih _)

/-- The items a member can be given. -/
def StatField.Fits (x : Item) : StatField → Prop
  | state => ∃ c, x = .char c
  | f => ∃ v, x = numeralOf f.conversion v

lemma StatField.fits_of_ne {f : StatField} (h : f ≠ .state) {x : Item} :
    f.Fits x ↔ ∃ v, x = numeralOf f.conversion v := by
  cases f <;> first | contradiction | rfl

theorem landCall_items (slots : List Slot) (xs : List (Option ℤ)) :
    ∀ e ∈ (landCall slots xs).1, ∃ v, e.2 = numeralOf e.1.conversion v := by
  fun_induction landCall slots xs with
  | case1 xs => simp
  | case2 => simp
  | case3 slot slots xs => simp
  | case4 k slots v xs ih => exact ih
  | case5 f slots v xs ih => exact List.forall_mem_cons.mpr ⟨⟨v,rfl⟩,ih⟩

theorem land_items (calls : List (List Slot)) (xs : List (Option ℤ)) :
    ∀ e ∈ land calls xs, ∃ v, e.2 = numeralOf e.1.conversion v := by
  induction calls generalizing xs with
  | nil => simp [land]
  | cons slots calls ih =>
    rw [land]
    exact List.forall_mem_append.mpr ⟨landCall_items slots xs,ih _⟩

/-- Every member is given at most one item, in the order of the formats, and one that fits. -/
structure Filling (l : List (StatField × Item)) : Prop where
  fields : (l.map Prod.fst).Sublist statFields
  fits : ∀ e ∈ l, e.1.Fits e.2

theorem filling_spilled (comm : Text) : Filling (spilled comm) := by
  have hlater : statFields = .state :: laterSlots.flatMap (·.filterMap Slot.stored) := rfl
  unfold spilled
  cases spill comm with
  | nil => exact ⟨List.nil_sublist _,by simp⟩
  | cons c t =>
    have hfields := land_fields laterSlots (lexemes t.length t)
    refine ⟨?_,List.forall_mem_cons.mpr ⟨⟨c,rfl⟩,fun e he => ?_⟩⟩
    · rw [hlater, List.map_cons]
      exact hfields.cons_cons _
    · refine (StatField.fits_of_ne fun hs => ?_).mpr (land_items _ _ e he)
      have hmem := hfields.subset (List.mem_map_of_mem he)
      have hn := statFields_nodup
      rw [hlater, List.nodup_cons] at hn
      exact hn.1 (hs ▸ hmem)

lemma uint32_inj {v w : ℤ} (h : Item.uint32 (numeralOf (.signed false) v) =
    Item.uint32 (numeralOf (.signed false) w)) :
    numeralOf (.signed false) v = numeralOf (.signed false) w := by
  obtain ⟨a,ha,ha0,ha1⟩ := numeralOf_int_range v
  obtain ⟨b,hb,hb0,hb1⟩ := numeralOf_int_range w
  rw [ha, hb] at h ⊢
  have h := congrArg (fun x : UInt32 => asInt x.toNat) h
  simp only [Item.uint32, asInt_asUInt32 ha0 ha1, asInt_asUInt32 hb0 hb1] at h
  rw [h]

lemma uint64_inj {v w : ℤ} (h : Item.uint64 (numeralOf (.signed true) v) =
    Item.uint64 (numeralOf (.signed true) w)) :
    numeralOf (.signed true) v = numeralOf (.signed true) w := by
  obtain ⟨a,ha,ha0,ha1⟩ := numeralOf_long_range v
  obtain ⟨b,hb,hb0,hb1⟩ := numeralOf_long_range w
  rw [ha, hb] at h ⊢
  have h := congrArg (fun x : UInt64 => asLong x.toNat) h
  simp only [Item.uint64, asLong_asUInt64 ha0 ha1, asLong_asUInt64 hb0 hb1] at h
  rw [h]

/-- A member shows which fitting item was stored in it. -/
theorem StatField.fits_unique {f : StatField} {x y : Item} {i : ProcInfo} (hx : f.Fits x)
    (hy : f.Fits y) (hi : f.holds x i) (hj : f.holds y i) : x = y := by
  cases f with
  | state =>
    obtain ⟨c,rfl⟩ := hx
    obtain ⟨d,rfl⟩ := hy
    exact congrArg Item.char (hi.symm.trans hj)
  | ppid | procgid | device =>
    obtain ⟨v,rfl⟩ := hx
    obtain ⟨w,rfl⟩ := hy
    exact uint32_inj (hi.symm.trans hj)
  | rss =>
    obtain ⟨v,rfl⟩ := hx
    obtain ⟨w,rfl⟩ := hy
    exact uint64_inj (hi.symm.trans hj)
  | putime | pstime | pcutime | pcstime | starttime | vms | textbegin | textend | stackbegin | esp
  | epi | databegin | dataend =>
    obtain ⟨v,rfl⟩ := hx
    obtain ⟨w,rfl⟩ := hy
    exact congrArg Item.unsigned (hi.symm.trans hj)

/-- Another item fits. -/
lemma StatField.exists_fits_ne (f : StatField) (x : Item) : ∃ y, f.Fits y ∧ y ≠ x := by
  have htwo : ∃ y z, f.Fits y ∧ f.Fits z ∧ y ≠ z := by
    by_cases hf : f = .state
    · subst hf
      exact ⟨.char 'R',.char 'S',⟨_,rfl⟩,⟨_,rfl⟩,by decide⟩
    · refine ⟨_,_,(fits_of_ne hf).mpr ⟨0,rfl⟩,(fits_of_ne hf).mpr ⟨1,rfl⟩,?_⟩
      cases f <;> first | contradiction | decide
  obtain ⟨y,z,hy,hz,hne⟩ := htwo
  by_cases hyx : y = x
  · exact ⟨z,hz,fun hzx => hne (hyx.trans hzx.symm)⟩
  · exact ⟨y,hy,hyx⟩

/-- What is stored can be told from the records that are left. -/
theorem Filling.subset {l l' : List (StatField × Item)} (hl : Filling l) (hl' : Filling l')
    (h : ∀ i, storeAll l i = storeAll l' i) : l ⊆ l' := by
  have hn := statFields_nodup.sublist hl.fields
  have hn' := statFields_nodup.sublist hl'.fields
  rintro ⟨f,x⟩ hx
  by_cases hf : f ∈ l'.map Prod.fst
  · obtain ⟨⟨f,x'⟩,hx',rfl⟩ := List.mem_map.mp hf
    have hi : f.holds x (storeAll l default) := StatField.holds_storeAll hn (.inl hx)
    have hi' : f.holds x' (storeAll l' default) := StatField.holds_storeAll hn' (.inl hx')
    rw [← h] at hi'
    have hxx' : x = x' := StatField.fits_unique (hl.fits _ hx) (hl'.fits (_,x') hx') hi hi'
    rwa [hxx']
  · -- a member that only one side stores can hold anything before
    obtain ⟨y,hy,hne⟩ := f.exists_fits_ne x
    have hi : f.holds x (storeAll l (f.store y default)) := StatField.holds_storeAll hn (.inl hx)
    have hi' : f.holds y (storeAll l' (f.store y default)) :=
      StatField.holds_storeAll hn' (.inr ⟨f.holds_store y default,hf⟩)
    rw [← h] at hi'
    exact absurd (StatField.fits_unique hy (hl.fits _ hx) hi' hi) hne

theorem Filling.eq {l l' : List (StatField × Item)} (hl : Filling l) (hl' : Filling l')
    (h : ∀ i, storeAll l i = storeAll l' i) : l = l' := by
  -- the order of the formats sorts both lists
  let before (e e' : StatField × Item) : Prop := statFields.idxOf e.1 < statFields.idxOf e'.1
  have hsorted : statFields.Pairwise fun f g => statFields.idxOf f < statFields.idxOf g := by decide
  have hbefore {l : List (StatField × Item)} (hl : Filling l) : l.Pairwise before := by
    have hmap := hsorted.sublist hl.fields
    rw [List.pairwise_map] at hmap
    exact hmap
  have : Std.Irrefl before := ⟨fun e => lt_irrefl _⟩
  have : Std.Antisymm before := ⟨fun e e' he he' => absurd he (lt_asymm he')⟩
  exact List.Subset.antisymm_of_pairwise (hbefore hl) (hbefore hl') (hl.subset hl' h)
    (hl'.subset hl fun i => (h i).symm)

namespace KernelStat

/-- The command name does not show in the members and in the count. -/
def SameFields (k : KernelStat) (comm comm' : Text) : Prop :=
  ∀ i, scanStat statCalls (k.line comm) i = scanStat statCalls (k.line comm') i

/-- Two names are read alike exactly when none has a blank, or when both have one and what
follows the first word of each begins with the same character and goes on with numerals that land
alike. -/
theorem sameFields_iff (k : KernelStat) {comm comm' : Text} (hc : comm.length ≤ 15)
    (hc' : comm'.length ≤ 15) :
    k.SameFields comm comm' ↔
      ((∀ c ∈ comm, isspace c = false) ∧ ∀ c ∈ comm', isspace c = false) ∨
      ((∃ c ∈ comm, isspace c = true) ∧ (∃ c ∈ comm', isspace c = true) ∧
        spilled comm = spilled comm') := by
  have hcases (comm : Text) :
      (∀ c ∈ comm, isspace c = false) ∨ ∃ c ∈ comm, isspace c = true := by
    by_cases h : ∃ c ∈ comm, isspace c = true
    · exact .inr h
    · exact .inl fun c hm => by simpa using fun hs => h ⟨c,hm,hs⟩
  have hsplit {comm comm' : Text} (h : ∀ c ∈ comm, isspace c = false)
      (h' : ∃ c ∈ comm', isspace c = true) (hc' : comm'.length ≤ 15) (i : ProcInfo) :
      scanStat statCalls (k.line comm) i ≠ scanStat statCalls (k.line comm') i := by
    intro he
    rw [k.scanStat_line h, (k.scans_spilled h').scanStat] at he
    have hlen := (spilled_length_le h').trans hc'
    have he : (18 : ℤ) = (spilled comm').length := congrArg Prod.fst he
    omega
  constructor
  · intro h
    rcases hcases comm with hw | hw <;> rcases hcases comm' with hw' | hw'
    · exact .inl ⟨hw,hw'⟩
    · exact absurd (h default) (hsplit hw hw' hc' default)
    · exact absurd (h default).symm (hsplit hw' hw hc default)
    · refine .inr ⟨hw,hw',(filling_spilled comm).eq (filling_spilled comm') fun i => ?_⟩
      have hi := h i
      rw [(k.scans_spilled hw).scanStat, (k.scans_spilled hw').scanStat] at hi
      exact congrArg Prod.snd hi
  · rintro (⟨hw,hw'⟩ | ⟨hw,hw',he⟩) i
    · rw [k.scanStat_line hw, k.scanStat_line hw']
    · rw [(k.scans_spilled hw).scanStat, (k.scans_spilled hw').scanStat, he]

theorem sameFields_parentheses : countingFields.SameFields ['s','h'] ['a',')','(','1'] :=
  (sameFields_iff countingFields (by decide) (by decide)).mpr
    (.inl ⟨by simp [isspace],by simp [isspace]⟩)

theorem not_sameFields_blank : ¬ countingFields.SameFields ['s','h'] ['a',' ','b'] := by
  intro h
  have hw : ∀ c ∈ ['s','h'], isspace c = false := by simp [isspace]
  have hw' : ∃ c ∈ ['a',' ','b'], isspace c = true := ⟨' ',by simp,rfl⟩
  have hi := h default
  rw [countingFields.scanStat_line hw, (countingFields.scans_spilled hw').scanStat] at hi
  have hcount : (18 : ℤ) = (spilled ['a',' ','b']).length := congrArg Prod.fst hi
  exact absurd hcount (by decide)

end KernelStat

end Cphf
