import Cphf.CLib.OrderedMap

/-! Search trees under a comparison that need not tell all keys apart, searched and filled the
way a `std::map` does it. Between two operations a tree may take any shape that keeps its entries
in their order, so every result is about the entries. -/
namespace CLib
variable {κ ν : Type} {lt : κ → κ → Bool} {S : Set κ}

/-- What is required of the comparison of a `std::map` whose keys are taken from a set. -/
abbrev StrictWeakOn (lt : κ → κ → Bool) (S : Set κ) : Prop := IsStrictWeakOrder S fun a b => lt a b

/-- Keys neither of which precedes the other. -/
def Equivalent (lt : κ → κ → Bool) (a b : κ) : Prop := lt a b = false ∧ lt b a = false

namespace StrictWeakOn
variable {a b c : κ}

lemma trans (h : StrictWeakOn lt S) (ha : a ∈ S) (hb : b ∈ S) (hc : c ∈ S) (hab : lt a b)
    (hbc : lt b c) : lt a c :=
  h.toIsTrans.trans ⟨a,ha⟩ ⟨b,hb⟩ ⟨c,hc⟩ hab hbc

/-- A key that precedes another precedes the keys equivalent to it. -/
lemma lt_of_equivalent (h : StrictWeakOn lt S) (ha : a ∈ S) (hb : b ∈ S) (hc : c ∈ S)
    (hab : lt a b) (hbc : Equivalent lt b c) : lt a c := by
  by_contra hac
  by_cases hca : lt c a
  · have hcb := h.trans hc ha hb hca hab
    rw [hbc.2] at hcb
    cases hcb
  · have hno := (h.incomp_trans ⟨a,ha⟩ ⟨c,hc⟩ ⟨b,hb⟩ ⟨hac,hca⟩ ⟨by simp [hbc.2],by simp [hbc.1]⟩).1
    exact hno hab

end StrictWeakOn

/-- The entry at the lower bound of a key, when its key is equivalent to the one sought. -/
def findEntry (lt : κ → κ → Bool) (k : κ) (l : List (κ × ν)) : Option (κ × ν) :=
  (l.find? fun e => !lt e.1 k).filter fun e => !lt k e.1

theorem lookup_eq_findEntry (k : κ) (l : List (κ × ν)) :
    lookup lt k l = (findEntry lt k l).map Prod.snd := by
  induction l with
  | nil => rfl
  | cons e l ih =>
    rw [lookup, ih, findEntry, findEntry, List.find?_cons]
    cases h1 : lt e.1 k with
    | true => rfl
    | false => cases h2 : lt k e.1 <;> simp [Option.filter, h2]

/-- A search finds the one entry whose key is equivalent to the key sought. -/
theorem findEntry_eq_some (hs : StrictWeakOn lt S) {l : List (κ × ν)} (hl : OrderedBy lt l)
    (hS : ∀ e ∈ l, e.1 ∈ S) {k : κ} (hk : k ∈ S) {e : κ × ν} :
    findEntry lt k l = some e ↔ e ∈ l ∧ Equivalent lt e.1 k := by
  rw [findEntry, Option.filter_eq_some_iff]
  constructor
  · intro ⟨hf,hke⟩
    have hek := List.find?_some hf
    exact ⟨List.mem_of_find?_eq_some hf,by simpa using hek,by simpa using hke⟩
  · intro ⟨he,hek,hke⟩
    refine ⟨?_,by simp [hke]⟩
    induction l with
    | nil => cases he
    | cons a l ih =>
      obtain ⟨ha,hl⟩ := List.pairwise_cons.mp hl
      rw [List.find?_cons]
      cases List.mem_cons.mp he with
      | inl he =>
        subst he
        rw [hek]
        rfl
      | inr he =>
        have hak : lt a.1 k := hs.lt_of_equivalent (hS a List.mem_cons_self)
          (hS e (List.mem_cons_of_mem _ he)) hk (ha e he) ⟨hek,hke⟩
        rw [hak]
        exact ih hl (fun e he => hS e (List.mem_cons_of_mem _ he)) he

/-- A map after the insertion of the entries of a list, the first one first. -/
def inserted (lt : κ → κ → Bool) (l : List (κ × ν)) : List (κ × ν) :=
  l.foldl (fun m e => insertNew lt e.1 e.2 m) []

theorem inserted_concat (l : List (κ × ν)) (e : κ × ν) :
    inserted lt (l ++ [e]) = insertNew lt e.1 e.2 (inserted lt l) := by
  rw [inserted, List.foldl_append]
  rfl

theorem mem_of_mem_inserted {l : List (κ × ν)} {e : κ × ν} (h : e ∈ inserted lt l) : e ∈ l := by
  induction l using List.reverseRecOn with
  | nil => cases h
  | append_singleton l a ih =>
    rw [inserted_concat] at h
    apply List.mem_append.mpr
    cases mem_insertNew h with
    | inl he => exact .inr (List.mem_singleton.mpr he)
    | inr hm => exact .inl (ih hm)

theorem inserted_orderedBy (hs : StrictWeakOn lt S) {l : List (κ × ν)} (hS : ∀ e ∈ l, e.1 ∈ S) :
    OrderedBy lt (inserted lt l) := by
  induction l using List.reverseRecOn with
  | nil => exact List.Pairwise.nil
  | append_singleton l a ih =>
    have hS' : ∀ e ∈ l, e.1 ∈ S := fun e he => hS e (List.mem_append_left _ he)
    rw [inserted_concat]
    apply insertNew_orderedBy (ih hS')
    intro b hb c hc
    exact hs.trans (hS a (by simp)) (hS' b (mem_of_mem_inserted hb)) (hS' c (mem_of_mem_inserted hc))

/-- Keys that all precede one another are all kept. -/
theorem inserted_perm {l : List (κ × ν)}
    (h : l.Pairwise fun a b => lt a.1 b.1 ∨ lt b.1 a.1) : (inserted lt l).Perm l := by
  induction l using List.reverseRecOn with
  | nil => exact .refl _
  | append_singleton l a ih =>
    obtain ⟨hl,_,hla⟩ := List.pairwise_append.mp h
    rw [inserted_concat]
    have hnew : (insertNew lt a.1 a.2 (inserted lt l)).Perm (a :: inserted lt l) :=
      insertNew_perm fun b hb => hla b (mem_of_mem_inserted hb) a List.mem_cons_self
    exact hnew.trans (((ih hl).cons a).trans (List.perm_append_singleton a l).symm)

/-- A binary tree with an entry at each node. -/
inductive Tree (κ ν : Type)
  | leaf
  | node (left : Tree κ ν) (key : κ) (value : ν) (right : Tree κ ν)

namespace Tree

/-- The entries from left to right. -/
def entries : Tree κ ν → List (κ × ν)
  | leaf => []
  | node l k v r => l.entries ++ (k,v) :: r.entries

/-- `lower_bound` below a node; `y` is the last node from which the search went to the left. -/
def lowerBound (lt : κ → κ → Bool) (k : κ) : Tree κ ν → Option (κ × ν) → Option (κ × ν)
  | leaf,y => y
  | node l j v r,y =>
    if lt j k then r.lowerBound lt k y else l.lowerBound lt k (some (j,v))

/-- `find`. -/
def find? (lt : κ → κ → Bool) (k : κ) (t : Tree κ ν) : Option (κ × ν) :=
  (t.lowerBound lt k none).filter fun e => !lt k e.1

/-- `insert` below a node: down to a free place, and nothing when the key before that place does
not precede the new one; `pred` is the last node from which the descent went to the right. -/
def insertAt (lt : κ → κ → Bool) (k : κ) (v : ν) : Tree κ ν → Option κ → Option (Tree κ ν)
  | leaf,pred => if pred.all (lt · k) then some (node leaf k v leaf) else none
  | node l j w r,pred =>
    if lt k j then (l.insertAt lt k v pred).map fun l => node l j w r
    else (r.insertAt lt k v (some j)).map fun r => node l j w r

/-- `insert`. -/
def insertNew (lt : κ → κ → Bool) (k : κ) (v : ν) (t : Tree κ ν) : Tree κ ν :=
  (t.insertAt lt k v none).getD t

/-- The search in a tree is the one in its entries, where what precedes a key that precedes the
one sought precedes it too. -/
theorem lowerBound_eq {k : κ} {t : Tree κ ν}
    (h : t.entries.Pairwise fun a b => lt b.1 k → lt a.1 k) (y : Option (κ × ν)) :
    t.lowerBound lt k y = (t.entries.find? fun e => !lt e.1 k).or y := by
  induction t generalizing y with
  | leaf => rfl
  | node l j v r ihl ihr =>
    obtain ⟨hl,hr,hlr⟩ := List.pairwise_append.mp h
    rw [lowerBound, entries, List.find?_append, List.find?_cons]
    cases hj : lt j k with
    | true =>
      have hno : (l.entries.find? fun e => !lt e.1 k) = none := by
        apply List.find?_eq_none.mpr
        intro a ha
        simp [hlr a ha _ List.mem_cons_self hj]
      rw [hno]
      exact ihr (List.pairwise_cons.mp hr).2 y
    | false =>
      rw [if_neg (by decide), ihl hl]
      cases l.entries.find? fun e => !lt e.1 k <;> rfl

theorem find?_eq {k : κ} {t : Tree κ ν}
    (h : t.entries.Pairwise fun a b => lt b.1 k → lt a.1 k) :
    t.find? lt k = findEntry lt k t.entries := by
  rw [find?, lowerBound_eq h, Option.or_none]
  rfl

/-- The descent as a walk along the entries. -/
def insertAfter (lt : κ → κ → Bool) (k : κ) (v : ν) :
    Option κ → List (κ × ν) → Option (List (κ × ν))
  | pred,[] => if pred.all (lt · k) then some [(k,v)] else none
  | pred,e :: l =>
    if lt k e.1 then if pred.all (lt · k) then some ((k,v) :: e :: l) else none
    else (insertAfter lt k v (some e.1) l).map (e :: ·)

section
variable {k j : κ} {v w : ν}

lemma insertAfter_left (hj : lt k j) (l r : List (κ × ν)) (pred : Option κ) :
    insertAfter lt k v pred (l ++ (j,w) :: r) =
      (insertAfter lt k v pred l).map (· ++ (j,w) :: r) := by
  induction l generalizing pred with
  | nil =>
    rw [List.nil_append, insertAfter, insertAfter, if_pos hj]
    split_ifs <;> rfl
  | cons e l ih =>
    rw [List.cons_append, insertAfter, insertAfter, ih]
    split_ifs with h1 h2
    · rfl
    · rfl
    · rw [Option.map_map, Option.map_map]
      rfl

lemma insertAfter_right (hj : lt k j = false) {l : List (κ × ν)} (hl : ∀ e ∈ l, lt k e.1 = false)
    (r : List (κ × ν)) (pred : Option κ) : insertAfter lt k v pred (l ++ (j,w) :: r) =
      (insertAfter lt k v (some j) r).map (l ++ (j,w) :: ·) := by
  induction l generalizing pred with
  | nil =>
    rw [List.nil_append, insertAfter, hj]
    rfl
  | cons e l ih =>
    rw [List.cons_append, insertAfter, hl e List.mem_cons_self,
      ih fun e he => hl e (List.mem_cons_of_mem _ he), if_neg (by decide), Option.map_map]
    rfl

theorem insertAt_entries {t : Tree κ ν}
    (h : t.entries.Pairwise fun a b => lt k a.1 → lt k b.1) (pred : Option κ) :
    (t.insertAt lt k v pred).map entries = insertAfter lt k v pred t.entries := by
  induction t generalizing pred with
  | leaf =>
    rw [insertAt, entries, insertAfter]
    split_ifs <;> rfl
  | node l j w r ihl ihr =>
    obtain ⟨hl,hr,hlr⟩ := List.pairwise_append.mp h
    rw [insertAt, entries]
    cases hj : lt k j with
    | true =>
      rw [insertAfter_left hj, ← ihl hl, if_pos rfl, Option.map_map, Option.map_map]
      rfl
    | false =>
      -- the keys to the left of one that the new key does not precede
      have hno : ∀ e ∈ l.entries, lt k e.1 = false := by
        intro e he
        by_contra hke
        have := hlr e he _ List.mem_cons_self (by simpa using hke)
        rw [hj] at this
        cases this
      rw [insertAfter_right hj hno, ← ihr (List.pairwise_cons.mp hr).2, if_neg (by decide),
        Option.map_map, Option.map_map]
      rfl

lemma insertAfter_eq_none {p : κ} (hp : lt p k = false) {l : List (κ × ν)}
    (h : ∀ e ∈ l, lt e.1 k → lt p k) (hl : l.Pairwise fun a b => lt b.1 k → lt a.1 k) :
    insertAfter lt k v (some p) l = none := by
  induction l generalizing p with
  | nil => simp [insertAfter, hp]
  | cons e l ih =>
    obtain ⟨he,hl⟩ := List.pairwise_cons.mp hl
    have hek : lt e.1 k = false := by
      by_contra hek
      have := h e List.mem_cons_self (by simpa using hek)
      rw [hp] at this
      cases this
    rw [insertAfter, ih hek he hl]
    split_ifs with h1 h2
    · rw [Option.all_some, hp] at h2
      cases h2
    · rfl
    · rfl

lemma insertAfter_getD (pred : Option κ) (hp : pred.all (lt · k)) {l : List (κ × ν)}
    (hl : l.Pairwise fun a b => lt b.1 k → lt a.1 k) :
    (insertAfter lt k v pred l).getD l = CLib.insertNew lt k v l := by
  induction l generalizing pred with
  | nil => simp [insertAfter, hp, CLib.insertNew]
  | cons e l ih =>
    obtain ⟨he,hl⟩ := List.pairwise_cons.mp hl
    rw [insertAfter, CLib.insertNew, if_pos hp]
    split_ifs with h1 h2
    · rfl
    · rw [← ih (some e.1) h2 hl]
      cases insertAfter lt k v (some e.1) l <;> rfl
    · rw [insertAfter_eq_none (by simpa using h2) he hl]
      rfl

/-- Insertion into a tree is the one into its entries. -/
theorem entries_insertNew {t : Tree κ ν} (hbefore : t.entries.Pairwise fun a b => lt b.1 k → lt a.1 k)
    (hafter : t.entries.Pairwise fun a b => lt k a.1 → lt k b.1) :
    (t.insertNew lt k v).entries = CLib.insertNew lt k v t.entries := by
  rw [← insertAfter_getD none rfl hbefore, ← insertAt_entries hafter none, insertNew]
  cases t.insertAt lt k v none <;> rfl

end

/-- The trees that the insertion of a list can leave: after each insertion the tree may take
another shape. -/
inductive Built (lt : κ → κ → Bool) : List (κ × ν) → Tree κ ν → Prop
  | nil : Built lt [] leaf
  | insert {l : List (κ × ν)} {t t' : Tree κ ν} {e : κ × ν} (h : Built lt l t)
      (hshape : t'.entries = (t.insertNew lt e.1 e.2).entries) : Built lt (l ++ [e]) t'

/-- A rotation is such a change. -/
example (a b c : Tree κ ν) (x y : κ) (v w : ν) :
    (node (node a x v b) y w c).entries = (node a x v (node b y w c)).entries := by
  simp [entries]

section
variable {l : List (κ × ν)} {t : Tree κ ν} (hs : StrictWeakOn lt S)
include hs

/-- The comparisons with a further key split ascending entries. -/
lemma split_of_orderedBy {m : List (κ × ν)} (hm : OrderedBy lt m) (hS : ∀ e ∈ m, e.1 ∈ S) {k : κ}
    (hk : k ∈ S) : (m.Pairwise fun a b => lt b.1 k → lt a.1 k) ∧
      m.Pairwise fun a b => lt k a.1 → lt k b.1 := by
  constructor
  · apply hm.imp_of_mem
    intro a b ha hb hab hbk
    exact hs.trans (hS a ha) (hS b hb) hk hab hbk
  · apply hm.imp_of_mem
    intro a b ha hb hab hka
    exact hs.trans hk (hS a ha) (hS b hb) hka hab

/-- Whatever shapes the tree takes, its entries are those of the list of entries. -/
theorem Built.entries_eq (hS : ∀ e ∈ l, e.1 ∈ S) (h : Built lt l t) :
    t.entries = inserted lt l := by
  induction h with
  | nil => rfl
  | @insert l t t' e h hshape ih =>
    have hS' : ∀ e ∈ l, e.1 ∈ S := fun e he => hS e (List.mem_append_left _ he)
    have hsplit := split_of_orderedBy hs (inserted_orderedBy hs hS')
      (fun e he => hS' e (mem_of_mem_inserted he)) (hS e (by simp))
    rw [← ih hS'] at hsplit
    rw [hshape, inserted_concat, entries_insertNew hsplit.1 hsplit.2, ih hS']

theorem Built.find?_eq (hS : ∀ e ∈ l, e.1 ∈ S) {k : κ} (hk : k ∈ S) (h : Built lt l t) :
    t.find? lt k = findEntry lt k (inserted lt l) := by
  have hsplit := split_of_orderedBy hs (inserted_orderedBy hs hS)
    (fun e he => hS e (mem_of_mem_inserted he)) hk
  rw [← h.entries_eq hs hS] at hsplit ⊢
  exact Tree.find?_eq hsplit.1

end

end Tree
end CLib
