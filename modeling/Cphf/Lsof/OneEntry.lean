import Cphf.Lsof.ProcessSets

/-! Whether every record of the field stream has an entry of its own in the print queue. Two
records share one when they are filed under the same number in the same process. -/
namespace Cphf
open CLib

/-- A process entry of the queue and the file entries between it and the next one. -/
structure ProcBlock where
  number : ℤ
  proc : ProcFile
  files : List UnlinkedFile

def ProcBlock.entries (b : ProcBlock) : List CphfFile := .proc b.proc :: b.files.map .file

/-- The queue has one block for each `p` record, with one file entry for each of its `f`
records: the object `addFile` returned for it. -/
def OnePerRecord (T : UInt64) (sets : List ProcSet) : Prop :=
  ∃ m, bufferedRead T ∅ (stream sets) = .ok m ∧ ∃ blocks : List ProcBlock,
    flattenMap m true true = blocks.flatMap ProcBlock.entries ∧
    (blocks.map ProcBlock.number).Perm (sets.map ProcSet.number) ∧
    ∀ b ∈ blocks, b.proc.pid = asUInt32 b.number ∧ (b.files.map some).Perm
      (((entriesGiven T (stream sets)).filter (·.1 = b.number)).map (fileAt m))

/-- The entries of a store. -/
def keysOf (m : ProcMap) : List (ℤ × ℤ) :=
  m.entries.flatMap fun e => e.2.ulFiles.entries.map fun f => (e.1,f.1)

def CphfFile.isFile : CphfFile → Bool
  | .proc _ => false
  | .file _ => true

theorem mem_keysOf {m : ProcMap} {e : ℤ × ℤ} : e ∈ keysOf m ↔ (fileAt m e).isSome := by
  obtain ⟨k,j⟩ := e
  constructor
  · intro h
    obtain ⟨⟨k',p⟩,hp,hf⟩ := List.mem_flatMap.mp h
    obtain ⟨⟨j',u⟩,hu,he⟩ := List.mem_map.mp hf
    cases he
    simp [fileAt, OMap.mem_entries.mp hp, OMap.mem_entries.mp hu]
  · intro h
    obtain ⟨u,hu⟩ := Option.isSome_iff_exists.mp h
    obtain ⟨p,hp,hf⟩ := Option.bind_eq_some_iff.mp hu
    exact List.mem_flatMap.mpr ⟨(k,p),OMap.mem_entries.mpr hp,
      List.mem_map.mpr ⟨(j,u),OMap.mem_entries.mpr hf,rfl⟩⟩

/-- A flattened list of keyed lists repeats nothing when neither the keys nor the lists do. -/
lemma nodup_flatMap_pairs {α : Type} {l : List α} {key : α → ℤ} {f : α → List ℤ}
    (h : (l.map key).Nodup) :
    (l.flatMap fun a => (f a).map fun j => (key a,j)).Nodup ↔ ∀ a ∈ l, (f a).Nodup := by
  rw [List.nodup_flatMap]
  have hinj : ∀ k : ℤ, Function.Injective fun j : ℤ => (k,j) := fun k i j he => (Prod.mk.inj he).2
  have hpair : l.Pairwise (Function.onFun List.Disjoint fun a => (f a).map fun j => (key a,j)) := by
    apply (List.pairwise_map.mp h).imp
    intro _ _ hne x hx hy
    obtain ⟨i,_,rfl⟩ := List.mem_map.mp hx
    obtain ⟨j,_,he⟩ := List.mem_map.mp hy
    exact hne (Prod.mk.inj he).1.symm
  simp only [hpair, and_true, List.nodup_map_iff (hinj _)]

theorem keysOf_nodup (m : ProcMap) : (keysOf m).Nodup := by
  have h := @nodup_flatMap_pairs _ m.entries Prod.fst
    (fun e => e.2.ulFiles.entries.map Prod.fst) m.nodup_keys
  simp only [List.map_map, Function.comp_def] at h
  exact h.mpr fun e _ => e.2.ulFiles.nodup_keys

theorem countP_flattenMap (m : ProcMap) :
    (flattenMap m true true).countP CphfFile.isFile = (keysOf m).length := by
  simp [flattenMap, keysOf, List.countP_flatMap, List.length_flatMap, ProcFile.flatten,
    Function.comp_def, CphfFile.isFile, List.countP_true]

theorem countP_blocks (blocks : List ProcBlock) :
    (blocks.flatMap ProcBlock.entries).countP CphfFile.isFile =
      (blocks.map fun b => b.files.length).sum := by
  simp [List.countP_flatMap, ProcBlock.entries, Function.comp_def, CphfFile.isFile, List.countP_true]

/-- Sorting the items of a list by their keys loses none. -/
lemma length_le_sum_filter {α : Type} (key : α → ℤ) {l : List α} {ks : List ℤ}
    (h : ∀ a ∈ l, key a ∈ ks) :
    l.length ≤ (ks.map fun k => (l.filter fun a => key a = k).length).sum := by
  induction l with
  | nil => simp
  | cons a l ih =>
    have hone : 1 ≤ ks.countP (fun k => key a = k) :=
      List.countP_pos_iff.mpr ⟨key a,h a (by simp),by simp⟩
    have hsum : (ks.map fun k => ((a :: l).filter fun a => key a = k).length).sum =
        (ks.map fun k => (l.filter fun a => key a = k).length).sum +
          ks.countP (fun k => key a = k) := by
      clear h ih hone
      induction ks with
      | nil => rfl
      | cons k ks ih =>
        rw [List.map_cons, List.map_cons, List.sum_cons, List.sum_cons, ih, List.countP_cons,
          List.filter_cons]
        split_ifs
        · rw [List.length_cons]
          omega
        · omega
    rw [hsum, List.length_cons]
    have := ih fun b hb => h b (by simp [hb])
    omega

section
variable {T : UInt64} {sets : List ProcSet}

/-- The entries given to one process are the store's entries under it, when none repeats. -/
lemma perm_given {m : ProcMap} {given : List (ℤ × ℤ)} (hmem : ∀ e, e ∈ keysOf m ↔ e ∈ given)
    (hn : given.Nodup) {e : ℤ × ProcFile} (he : e ∈ m.entries) :
    ((e.2.ulFiles.entries.map Prod.snd).map some).Perm
      ((given.filter (·.1 = e.1)).map (fileAt m)) := by
  obtain ⟨k,p⟩ := e
  have hp := OMap.mem_entries.mp he
  have hkeys : (p.ulFiles.entries.map fun f => (k,f.1)).Perm (given.filter (·.1 = k)) := by
    rw [List.perm_ext_iff_of_nodup ?_ (hn.filter _)]
    · rintro ⟨k',j⟩
      rw [List.mem_filter, ← hmem, mem_keysOf]
      simp only [List.mem_map, Prod.mk.injEq, decide_eq_true_eq]
      constructor
      · rintro ⟨⟨j',u⟩,hu,rfl,rfl⟩
        simp [fileAt, hp, OMap.mem_entries.mp hu]
      · rintro ⟨hf,rfl⟩
        obtain ⟨u,hu⟩ := Option.isSome_iff_exists.mp hf
        simp only [fileAt, hp, Option.bind_some] at hu
        exact ⟨(j,u),OMap.mem_entries.mpr hu,rfl,rfl⟩
    · have := p.ulFiles.nodup_keys.map (f := fun j => (k,j)) fun i j he => (Prod.mk.inj he).2
      rwa [List.map_map] at this
  have hfile : ∀ f ∈ p.ulFiles.entries, some f.2 = fileAt m (k,f.1) := fun f hf => by
    simp [fileAt, hp, OMap.mem_entries.mp (show (f.1,f.2) ∈ _ from hf)]
  have hfiles : (p.ulFiles.entries.map Prod.snd).map some =
      (p.ulFiles.entries.map fun f => (k,f.1)).map (fileAt m) := by
    rw [List.map_map, List.map_map]
    exact List.map_congr_left hfile
  rw [hfiles]
  exact hkeys.map (fileAt m)

/-- Blocks that account for every entry given out leave no entry to be given out twice. -/
lemma given_nodup_of_blocks {m : ProcMap} {given : List (ℤ × ℤ)}
    (hmem : ∀ e, e ∈ keysOf m ↔ e ∈ given) {blocks : List ProcBlock}
    (hflat : flattenMap m true true = blocks.flatMap ProcBlock.entries)
    (hlen : ∀ b ∈ blocks, b.files.length = (given.filter fun e => e.1 = b.number).length)
    (hcover : ∀ e ∈ given, e.1 ∈ blocks.map ProcBlock.number) : given.Nodup := by
  have hcount := congrArg (List.countP CphfFile.isFile) hflat
  rw [countP_flattenMap, countP_blocks, List.map_congr_left hlen] at hcount
  have hle := length_le_sum_filter Prod.fst hcover
  rw [List.map_map] at hle
  have hfin : (keysOf m).toFinset = given.toFinset := by
    ext e
    simp [hmem]
  have hcard := List.toFinset_card_of_nodup (keysOf_nodup m)
  rw [hfin] at hcard
  rw [← Multiset.coe_nodup, ← Multiset.toFinset_card_eq_card_iff_nodup]
  apply le_antisymm (Multiset.toFinset_card_le _)
  calc given.length ≤ (keysOf m).length := by
        rw [hcount]
        exact hle
    _ = _ := hcard.symm

/-- With distinct process numbers, every record has its own entry exactly when, in every
process, the numbers of the `f` records are pairwise different. -/
theorem onePerRecord_iff (hd : (sets.map ProcSet.number).Nodup) :
    OnePerRecord T sets ↔ ∀ e ∈ filed T 0 sets, e.2.Nodup := by
  obtain ⟨st,hst,hrun,hc,hl⟩ := bufferedReadState_stream T sets
  have hread : bufferedRead T ∅ (stream sets) = .ok st.procMap := by rw [bufferedRead, hst]; rfl
  have hgiven := entriesGiven_stream T sets
  have hmem : ∀ e, e ∈ keysOf st.procMap ↔ e ∈ entriesGiven T (stream sets) := fun e => by
    rw [mem_keysOf, hl.files, ledger_sets_files, hgiven]
  have hfst : (filed T 0 sets).map (fun e => e.1.number) = sets.map ProcSet.number := by
    conv_rhs => rw [← filed_fst T 0 sets, List.map_map]
    rfl
  rw [← nodup_flatMap_pairs (f := Prod.snd) (hfst ▸ hd), ← hgiven]
  constructor
  · rintro ⟨m,hm,blocks,hflat,hperm,hblock⟩
    cases hread.symm.trans hm
    refine given_nodup_of_blocks hmem hflat (fun b hb => ?_) fun e he => ?_
    · simpa using (hblock b hb).2.length_eq
    · rw [hgiven] at he
      obtain ⟨s,hs,he⟩ := List.mem_flatMap.mp he
      obtain ⟨j,_,rfl⟩ := List.mem_map.mp he
      exact hperm.mem_iff.mpr (hfst ▸ List.mem_map_of_mem (f := fun e => e.1.number) hs)
  · intro hn
    refine ⟨st.procMap,hread,st.procMap.entries.map fun e =>
      ⟨e.1,e.2,e.2.ulFiles.entries.map Prod.snd⟩,?_,?_,?_⟩
    · simp [flattenMap, List.flatMap_map, ProcBlock.entries, ProcFile.flatten, Function.comp_def]
    · rw [List.map_map]
      apply (List.perm_ext_iff_of_nodup st.procMap.nodup_keys hd).mpr
      intro k
      have hk := hl.procs k
      rw [ledger_sets_procs] at hk
      rw [← hk, Option.isSome_iff_ne_none, ne_eq, OMap.find?_eq_none, not_not]
    · intro b hb
      obtain ⟨e,he,rfl⟩ := List.mem_map.mp hb
      exact ⟨(hc.procs e.1 e.2 (OMap.mem_entries.mp he)).pid,perm_given hmem hn he⟩

end

def Value.of (text : Text) (h : IsWord text ∧ text.length < bufferSize) : Value := ⟨text,h.1,h.2⟩

/-- Descriptors, the program text and one memory map: each has an entry of its own. -/
theorem onePerRecord_distinct :
    OnePerRecord 1025 [⟨.of "1".toList (by decide),[⟨.of "3".toList (by decide),none⟩,
      ⟨.of "txt".toList (by decide),none⟩,⟨.of "mem".toList (by decide),none⟩]⟩,
      ⟨.of "2".toList (by decide),[⟨.of "txt".toList (by decide),none⟩]⟩] :=
  (onePerRecord_iff (by decide)).mpr (by decide +kernel)

/-- Two memory maps of one process are filed under descriptor zero, and one is lost. -/
theorem not_onePerRecord_mem :
    ¬ OnePerRecord 1025 [⟨.of "1".toList (by decide),[⟨.of "mem".toList (by decide),none⟩,
      ⟨.of "mem".toList (by decide),none⟩]⟩] := by
  rintro ⟨m,hm,blocks,hflat,hperm,hblock⟩
  have hone : (fun m => (flattenMap m true true).countP CphfFile.isFile) <$>
      bufferedRead 1025 ∅ "p1\nfmem\nfmem\n".toList = .ok 1 := by decide +kernel
  have hg : entriesGiven 1025 "p1\nfmem\nfmem\n".toList = [(1,0),(1,0)] := by decide +kernel
  have hs : _ = Except.ok ((flattenMap m true true).countP CphfFile.isFile) :=
    congrArg (Functor.map fun m => (flattenMap m true true).countP CphfFile.isFile) hm
  obtain ⟨b,rfl,hb⟩ := List.map_eq_singleton_iff.mp (List.perm_singleton.mp hperm)
  have htwo := (hg ▸ (hblock b (by simp)).2).length_eq
  rw [hb] at htwo
  have hcount := Except.ok.inj (hone.symm.trans hs)
  rw [hflat, countP_blocks] at hcount
  simp only [List.map_cons, List.map_nil, List.sum_cons, List.sum_nil] at hcount
  rw [List.length_map] at htwo
  have : b.files.length = 2 := htwo
  omega

section
variable {T : UInt64}

/-- The keys of a process: those of its words and descriptors, and those of its `txt` records. -/
theorem mem_fileKeys {seen : ℕ} {l : List FileSet} {j : ℤ} :
    j ∈ fileKeys T seen l ↔
      (∃ s ∈ l, s.isTxt = false ∧ j = atoi (c_str s.fd.text)) ∨
      ∃ i < txtCount l, j = fileKey (T + 1 + UInt64.ofNat (seen + i)) := by
  induction l generalizing seen with
  | nil => simp [fileKeys, txtCount]
  | cons s l ih =>
    rw [fileKeys, List.mem_cons, ih, txtCount_cons s l, txtCount_singleton, FileSet.number]
    cases ht : s.isTxt with
    | false => simp [LsofLoop.fileKey_atoi, ht, or_assoc]
    | true =>
      simp only [if_true, List.mem_cons, exists_eq_or_imp, ht, Bool.true_eq_false, false_and,
        false_or]
      rw [Nat.add_comm 1, Nat.exists_lt_succ_left]
      simp only [Nat.add_zero, Nat.add_assoc, Nat.add_comm 1]
      exact or_left_comm

/-- Below the threshold and without wrapping, `txt` records collide with nothing, and the
others exactly when their values convert to the same number. -/
theorem fileKeys_nodup_iff {seen : ℕ} {l : List FileSet}
    (hw : ∀ s ∈ l, s.isTxt = false → 0 ≤ atoi (c_str s.fd.text) ∧ atoi (c_str s.fd.text) < T.toNat)
    (hT : T.toNat + seen + txtCount l < 2^32) :
    (fileKeys T seen l).Nodup ↔
      ((l.filter fun s => !s.isTxt).map fun s => atoi (c_str s.fd.text)).Nodup := by
  induction l generalizing seen with
  | nil => simp [fileKeys]
  | cons s l ih =>
    rw [txtCount_cons s l, txtCount_singleton] at hT
    have hrest := @ih (seen + txtCount [s]) (fun s' hs' => hw s' (by simp [hs']))
      (by rw [txtCount_singleton]; omega)
    rw [fileKeys, List.nodup_cons, hrest, mem_fileKeys, FileSet.number]
    have hne : ∀ i, T.toNat + 1 + i < 2^32 → ∀ s' ∈ s :: l, s'.isTxt = false →
        fileKey (T + 1 + UInt64.ofNat i) ≠ atoi (c_str s'.fd.text) := by
      intro i hi s' hs' ht' he
      obtain ⟨h0,hlt⟩ := hw s' hs' ht'
      rw [← LsofLoop.fileKey_atoi, fileKey_eq_iff, asUInt64_toUInt32] at he
      have hn := congrArg UInt32.toNat he
      rw [txt_toNat hi, toNat_asUInt32] at hn
      omega
    cases ht : s.isTxt with
    | false =>
      simp only [ht, if_false, List.filter_cons, Bool.not_false, if_true, List.map_cons,
        List.nodup_cons, LsofLoop.fileKey_atoi, Bool.false_eq_true]
      refine and_congr_left fun _ => not_congr ?_
      constructor
      · rintro (⟨s',hs',ht',he⟩ | ⟨i,hi,he⟩)
        · exact List.mem_map.mpr ⟨s',by simp [hs', ht'],he.symm⟩
        · rw [txtCount_singleton, ht] at he
          rw [ht] at hT
          exact absurd he.symm (hne _ (by simp at hT ⊢; omega) s (by simp) ht)
      · intro h
        obtain ⟨s',hs',he⟩ := List.mem_map.mp h
        simp only [List.mem_filter, Bool.not_eq_true'] at hs'
        exact .inl ⟨s',hs'.1,hs'.2,he.symm⟩
    | true =>
      simp only [ht, if_true, List.filter_cons, Bool.not_true, Bool.false_eq_true, if_false]
      rw [ht, if_pos rfl] at hT
      apply and_iff_right
      rintro (⟨s',hs',ht',he⟩ | ⟨i,hi,he⟩)
      · exact hne seen (by omega) s' (by simp [hs']) ht' he
      · rw [fileKey_eq_iff] at he
        have hn := congrArg UInt32.toNat he
        rw [txt_toNat (by omega), txtCount_singleton, ht, if_pos rfl, txt_toNat (by omega)] at hn
        omega

theorem filed_spec {seen : ℕ} {sets : List ProcSet} {e : ProcSet × List ℤ}
    (h : e ∈ filed T seen sets) : ∃ seen', e.2 = fileKeys T seen' e.1.files ∧
      seen' + txtCount e.1.files ≤ seen + txtCount (sets.flatMap ProcSet.files) := by
  induction sets generalizing seen with
  | nil => simp [filed] at h
  | cons s l ih =>
    have hc : txtCount ((s :: l).flatMap ProcSet.files) =
        txtCount s.files + txtCount (l.flatMap ProcSet.files) := by
      simp [txtCount]
    rcases List.mem_cons.mp h with rfl | h
    · exact ⟨seen,rfl,by rw [hc]; simp only; omega⟩
    · obtain ⟨seen',he,hle⟩ := ih h
      exact ⟨seen',he,by omega⟩

/-- So on a stream whose descriptors lie below the threshold, records share an entry exactly
when two words, or a word and descriptor zero, occur in one process. -/
theorem filed_nodup_iff {sets : List ProcSet}
    (hw : ∀ s ∈ sets.flatMap ProcSet.files, s.isTxt = false →
      0 ≤ atoi (c_str s.fd.text) ∧ atoi (c_str s.fd.text) < T.toNat)
    (hT : T.toNat + txtCount (sets.flatMap ProcSet.files) < 2^32) :
    (∀ e ∈ filed T 0 sets, e.2.Nodup) ↔ ∀ s ∈ sets,
      ((s.files.filter fun f => !f.isTxt).map fun f => atoi (c_str f.fd.text)).Nodup := by
  have hone : ∀ e ∈ filed T 0 sets, e.2.Nodup ↔
      ((e.1.files.filter fun f => !f.isTxt).map fun f => atoi (c_str f.fd.text)).Nodup := by
    intro e he
    obtain ⟨seen,hkeys,hle⟩ := filed_spec he
    have hs : e.1 ∈ sets := filed_fst T 0 sets ▸ List.mem_map_of_mem he
    rw [hkeys, fileKeys_nodup_iff (fun f hf => hw f (List.mem_flatMap.mpr ⟨e.1,hs,hf⟩)) (by omega)]
  constructor
  · intro h s hs
    rw [← filed_fst T 0 sets] at hs
    obtain ⟨e,he,rfl⟩ := List.mem_map.mp hs
    exact (hone e he).mp (h e he)
  · intro h e he
    exact (hone e he).mpr (h e.1 (filed_fst T 0 sets ▸ List.mem_map_of_mem he))

end
end Cphf
