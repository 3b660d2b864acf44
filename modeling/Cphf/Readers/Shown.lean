import Cphf.Readers.Isolation

/-! What shows of a record. Every member an option reads can be told from its text, and the text of
every option but the command can be told from the attributes a process ends with. -/
namespace Cphf
open CLib

section
variable (sys : System) (i : ProcInfo)

theorem formatRange_begin_ne (e : UInt64) : formatRange 0 e ≠ formatRange 1 e := by
  unfold formatRange
  rw [Ne, List.append_cancel_right_eq]
  decide

theorem formatRange_end_ne (b : UInt64) : formatRange b 0 ≠ formatRange b 1 := by
  unfold formatRange
  rw [Ne, List.append_cancel_left_eq]
  decide

/-- The CPU times of no ticks and of one second of ticks. -/
theorem readETime_ne : readETime sys 0 ≠ readETime sys sys.clkTck := by
  have h := sys.clkTck_pos
  unfold readETime
  rw [Int.zero_tdiv, Int.tdiv_self h.ne']
  decide

/-- Two items stored in a member can be told apart in the text of an option. -/
def Distinguishes (o : ProcOption) (f : StatField) : Prop :=
  ∃ x y : Item, o.text sys (f.store x i) ≠ o.text sys (f.store y i)

lemma distinguishes_of_texts {o : ProcOption} {f : StatField} {x y : Item} {t u : Text}
    (hx : o.text sys (f.store x i) = .ok t) (hy : o.text sys (f.store y i) = .ok u) (h : t ≠ u) :
    Distinguishes sys i o f :=
  ⟨x,y,fun he => h (Except.ok.inj (hx.symm.trans (he.trans hy)))⟩

/-- A member of the CPU time can be given so that the sum is any number of ticks. -/
lemma cpuTime_text {f : StatField} (hf : f = .pstime ∨ f = .putime) {ticks : ℤ}
    (h0 : 0 ≤ ticks) (h : ticks < 2^63) :
    ∃ x, ProcOption.cpuTime.text sys (f.store x i) = .ok (readETime sys ticks) := by
  have hticks : asLong ((asUInt64 ticks).toNat : ℤ) = ticks := by
    rw [toNat_asUInt64, asLong_of_lt] <;> omega
  rcases hf with rfl | rfl
  · refine ⟨.unsigned (asUInt64 ticks - i.putime),?_⟩
    rw [ProcOption.text_cpuTime]
    change Except.ok (readETime sys (asLong (asUInt64 ticks - i.putime + i.putime).toNat)) = _
    rw [UInt64.sub_add_cancel, hticks]
  · refine ⟨.unsigned (asUInt64 ticks - i.pstime),?_⟩
    rw [ProcOption.text_cpuTime]
    change Except.ok (readETime sys (asLong (i.pstime + (asUInt64 ticks - i.pstime)).toNat)) = _
    rw [UInt64.add_comm, UInt64.sub_add_cancel, hticks]

/-- Both ends of a range show in its text. -/
lemma range_distinguishes {o : ProcOption} {b e f : StatField} (hf : f ∈ [b,e])
    {begin' end' : ProcInfo → UInt64} (ht : ∀ j, o.text sys j = .ok (formatRange (begin' j) (end' j)))
    (hbegin : ∀ v, begin' (b.store (.unsigned v) i) = v ∧ end' (b.store (.unsigned v) i) = end' i)
    (hend : ∀ v, begin' (e.store (.unsigned v) i) = begin' i ∧ end' (e.store (.unsigned v) i) = v) :
    Distinguishes sys i o f := by
  have hsb : ∀ v, o.text sys (b.store (.unsigned v) i) = .ok (formatRange v (end' i)) := fun v => by
    rw [ht, (hbegin v).1, (hbegin v).2]
  have hse : ∀ v, o.text sys (e.store (.unsigned v) i) = .ok (formatRange (begin' i) v) := fun v => by
    rw [ht, (hend v).1, (hend v).2]
  simp only [List.mem_cons, List.not_mem_nil, or_false] at hf
  rcases hf with rfl | rfl
  · exact distinguishes_of_texts sys i (hsb 0) (hsb 1) (formatRange_begin_ne _)
  · exact distinguishes_of_texts sys i (hse 0) (hse 1) (formatRange_end_ne _)

/-- Every member that an option reads shows in its text; of start times this is not said. -/
theorem distinguishes {o : ProcOption} {f : StatField} (hf : f ∈ o.members)
    (hs : o ≠ .startTime) : Distinguishes sys i o f := by
  have hword : ∀ {o : ProcOption} {f : StatField} {r : Item → Text},
      (∀ x, o.text sys (f.store x i) = .ok (r x)) → ∀ x y, r x ≠ r y → Distinguishes sys i o f :=
    fun ht x y hr => distinguishes_of_texts sys i (ht x) (ht y) hr
  cases o with
  | command | username | uid | ugidName | ugid | device | perms => cases hf
  | startTime => exact absurd rfl hs
  | ppid =>
    rw [List.mem_singleton.mp hf]
    exact hword (r := fun x => format (Item.uint32 x)) (fun _ => ProcOption.text_ppid sys _) (.unsigned 0)
      (.unsigned 1) (by decide)
  | procgid =>
    rw [List.mem_singleton.mp hf]
    exact hword (r := fun x => format (Item.uint32 x)) (fun _ => ProcOption.text_procgid sys _) (.unsigned 0)
      (.unsigned 1) (by decide)
  | cpuTime =>
    have hmem : f = .pstime ∨ f = .putime := by simpa [ProcOption.members] using hf
    obtain ⟨x,hx⟩ := cpuTime_text sys i hmem le_rfl (by decide)
    obtain ⟨y,hy⟩ := cpuTime_text sys i hmem sys.clkTck_pos.le sys.clkTck_lt
    exact distinguishes_of_texts sys i hx hy (readETime_ne sys)
  | state =>
    rw [List.mem_singleton.mp hf]
    exact hword (r := fun x => procstate (Item.byte x)) (fun _ => ProcOption.text_state sys _)
      (.char 'R') (.char 'S') (by decide)
  | vms =>
    rw [List.mem_singleton.mp hf]
    exact hword (r := fun x => format (Item.uint64 x).toUInt32) (fun _ => ProcOption.text_vms sys _) (.unsigned 0)
      (.unsigned 1) (by decide)
  | rms =>
    rw [List.mem_singleton.mp hf]
    exact hword (r := fun x => format (Item.uint64 x).toUInt32) (fun _ => ProcOption.text_rms sys _) (.unsigned 0)
      (.unsigned 1) (by decide)
  | memText =>
    exact range_distinguishes sys i hf (ProcOption.text_memText sys)
      (fun _ => ⟨rfl,rfl⟩) fun _ => ⟨rfl,rfl⟩
  | memData =>
    exact range_distinguishes sys i hf (ProcOption.text_memData sys)
      (fun _ => ⟨rfl,rfl⟩) fun _ => ⟨rfl,rfl⟩
  | memStack =>
    exact range_distinguishes sys i hf (ProcOption.text_memStack sys)
      (fun _ => ⟨rfl,rfl⟩) fun _ => ⟨rfl,rfl⟩
  | instPtr =>
    rw [List.mem_singleton.mp hf]
    exact hword (fun _ => ProcOption.text_instPtr sys _) (.unsigned 0) (.unsigned 1)
      (formatRange_begin_ne _)

end

/-- The identifiers of new attributes tell which of them come to the front, so the same list
arranged comes from the same attributes. -/
theorem mem_of_arranged_eq {front : CphfId} {old new new' : List CphfAttribute}
    (hk : new.map Prod.fst = new'.map Prod.fst) (h : arranged front old new = arranged front old new')
    {a : CphfAttribute} (ha : a ∈ new) (hne : a.1 ≠ front) : a ∈ new' := by
  have hcount : ∀ l : List CphfAttribute, (l.filter (·.1 = front)).reverse.length =
      ((l.map Prod.fst).filter (· = front)).length := by
    intro l
    rw [List.length_reverse, List.filter_map, List.length_map]
    rfl
  unfold arranged at h
  rw [List.append_assoc, List.append_assoc] at h
  obtain ⟨_,hrest⟩ := List.append_inj h (by rw [hcount, hcount, hk])
  have hm : a ∈ new.filter (·.1 ≠ front) := List.mem_filter.mpr ⟨ha,by simpa using hne⟩
  rw [List.append_cancel_left_eq] at hrest
  rw [hrest] at hm
  exact (List.mem_filter.mp hm).1

/-- Gatherings over the same options have the same identifiers. -/
theorem gathered_keys {sys sys' : System} {i j : ProcInfo} {options : Text} {m m' : ReaderFuncs}
    (h : gather (ProcReader.entry sys i) ∅ options = .ok m)
    (h' : gather (ProcReader.entry sys' j) ∅ options = .ok m') :
    m.entries.map Prod.fst = m'.entries.map Prod.fst := by
  have hkeys : ∀ {sys i m}, gather (ProcReader.entry sys i) ∅ options = .ok m →
      ∀ k, k ∈ m.entries.map Prod.fst ↔ ∃ o : ProcOption, o.char ∈ options ∧ o.attribID = k := by
    intro sys i m h k
    rw [List.mem_map]
    constructor
    · rintro ⟨⟨k,v⟩,hm,rfl⟩
      obtain ⟨c,hc,he⟩ := (find?_gather (ProcReader.entry_functional sys i) h k v).mp
        (OMap.mem_entries.mp hm)
      obtain ⟨o,rfl,hk,_⟩ := (ProcReader.entry_eq_ok sys i).mp he
      exact ⟨o,hc,hk.symm⟩
    · rintro ⟨o,ho,rfl⟩
      obtain ⟨k,v,he,hm⟩ := gathered (ProcReader.entry_functional sys i) h ho
      obtain ⟨o',hc,hk,_⟩ := (ProcReader.entry_eq_ok sys i).mp he
      rw [ProcOption.char_injective hc]
      exact ⟨_,hm,hk⟩
  have hp : (m.entries.map Prod.fst).Perm (m'.entries.map Prod.fst) := by
    rw [List.perm_ext_iff_of_nodup m.nodup_keys m'.nodup_keys]
    intro k
    rw [hkeys h, hkeys h']
  exact hp.eq_of_pairwise (fun a b _ _ hab hba => absurd hab (lt_asymm hba)) m.sorted m'.sorted

/-- The text of an option that was given is gathered under its identifier. -/
lemma mem_gathered_text {i : ProcInfo} {funcs : ReaderFuncs} {o : ProcOption} {t : Text}
    (hg : gather (ProcReader.entry sys i) ∅ options = .ok funcs) (ho : o.char ∈ options)
    (ht : o.text sys i = .ok t) : (o.attribID,t) ∈ funcs.entries := by
  rw [OMap.mem_entries, find?_gather (ProcReader.entry_functional sys _) hg]
  exact ⟨_,ho,(ProcReader.entry_eq_ok sys _).mpr ⟨o,rfl,rfl,ht⟩⟩

end Cphf
