import Cphf.CLib.Runs

/-! Ordered maps with the interface of `std::map`: insertion that never overwrites,
lookup, update through a reference, and iteration in key order. -/
namespace CLib

/-- Insert unless an equivalent key is present. The entries stand in the order of `lt`,
and two keys are equivalent when neither precedes the other. -/
def insertNew {κ ν : Type} (lt : κ → κ → Bool) (k : κ) (v : ν) : List (κ × ν) → List (κ × ν)
  | [] => [(k,v)]
  | e :: l =>
    if lt k e.1 then (k,v) :: e :: l
    else if lt e.1 k then e :: insertNew lt k v l
    else e :: l

/-- The entry at the lower bound of a key, when its key is equivalent to the one sought. -/
def lookup {κ ν : Type} (lt : κ → κ → Bool) (k : κ) : List (κ × ν) → Option ν
  | [] => none
  | e :: l => if lt e.1 k then lookup lt k l else if lt k e.1 then none else some e.2

/-- Entries whose keys stand in the order of a comparison. -/
def OrderedBy {κ ν : Type} (lt : κ → κ → Bool) (l : List (κ × ν)) : Prop :=
  l.Pairwise fun a b => lt a.1 b.1

theorem mem_insertNew {κ ν : Type} {lt : κ → κ → Bool} {k : κ} {v : ν} {l : List (κ × ν)}
    {e : κ × ν} (h : e ∈ insertNew lt k v l) : e = (k,v) ∨ e ∈ l := by
  induction l with
  | nil => exact .inl (List.mem_singleton.mp h)
  | cons a l ih =>
    rw [insertNew] at h
    split_ifs at h
    · exact List.mem_cons.mp h
    · cases List.mem_cons.mp h with
      | inl he => exact .inr (by simp [he])
      | inr hm => exact (ih hm).imp_right (List.mem_cons_of_mem _)
    · exact .inr h

/-- Insertion keeps the order where the new key precedes what follows a key it precedes. -/
theorem insertNew_orderedBy {κ ν : Type} {lt : κ → κ → Bool} {k : κ} {v : ν} {l : List (κ × ν)}
    (hl : OrderedBy lt l) (hk : ∀ a ∈ l, ∀ b ∈ l, lt k a.1 → lt a.1 b.1 → lt k b.1) :
    OrderedBy lt (insertNew lt k v l) := by
  induction l with
  | nil => exact List.pairwise_singleton _ _
  | cons e l ih =>
    obtain ⟨he,htail⟩ := List.pairwise_cons.mp hl
    rw [insertNew]
    split_ifs with h1 h2
    · apply List.pairwise_cons.mpr
      refine ⟨fun b hb => ?_,hl⟩
      cases List.mem_cons.mp hb with
      | inl hb => rw [hb]; exact h1
      | inr hb => exact hk e List.mem_cons_self b (List.mem_cons_of_mem _ hb) h1 (he b hb)
    · apply List.pairwise_cons.mpr
      refine ⟨fun b hb => ?_,ih htail fun a ha b hb =>
        hk a (List.mem_cons_of_mem _ ha) b (List.mem_cons_of_mem _ hb)⟩
      cases mem_insertNew hb with
      | inl hb => rw [hb]; exact h2
      | inr hb => exact he b hb
    · exact hl

/-- A key that precedes or follows every other is kept. -/
theorem insertNew_perm {κ ν : Type} {lt : κ → κ → Bool} {k : κ} {v : ν} {l : List (κ × ν)}
    (h : ∀ e ∈ l, lt e.1 k ∨ lt k e.1) : (insertNew lt k v l).Perm ((k,v) :: l) := by
  induction l with
  | nil => exact .refl _
  | cons e l ih =>
    rw [insertNew]
    split_ifs with h1 h2
    · exact .refl _
    · have htail := ih fun e he => h e (List.mem_cons_of_mem _ he)
      exact (htail.cons e).trans (.swap _ _ _)
    · exact absurd (h e List.mem_cons_self) (by simp [h1, h2])

/-- Visit values in order, threading a state; each value is replaced by the visit's result. -/
def traverse {κ ν μ σ ε : Type} (f : σ → κ → ν → Except ε (σ × μ)) :
    σ → List (κ × ν) → Except ε (σ × List (κ × μ))
  | s,[] => .ok (s,[])
  | s,e :: l =>
    f s e.1 e.2 >>= fun a =>
      traverse f a.1 l >>= fun b => .ok (b.1,(e.1,a.2) :: b.2)

theorem traverse_cons_ok {κ ν μ σ ε : Type} {f : σ → κ → ν → Except ε (σ × μ)} {s t : σ}
    {e : κ × ν} {l : List (κ × ν)} {l' : List (κ × μ)} :
    traverse f s (e :: l) = .ok (t,l') ↔ ∃ u v l₁, f s e.1 e.2 = .ok (u,v) ∧
      traverse f u l = .ok (t,l₁) ∧ l' = (e.1,v) :: l₁ := by
  simp only [traverse, bind_eq_ok, Prod.exists, Except.ok.injEq, Prod.mk.injEq]
  constructor
  · rintro ⟨u,v,h,t',l₁,ht,rfl,rfl⟩
    exact ⟨u,v,l₁,h,ht,rfl⟩
  · rintro ⟨u,v,l₁,h,ht,rfl⟩
    exact ⟨u,v,h,t,l₁,ht,rfl,rfl⟩

theorem traverse_keys {κ ν μ σ ε : Type} {f : σ → κ → ν → Except ε (σ × μ)} {s t : σ}
    {l : List (κ × ν)} {l' : List (κ × μ)} (h : traverse f s l = .ok (t,l')) :
    l'.map Prod.fst = l.map Prod.fst := by
  induction l generalizing s l' with
  | nil => cases h; rfl
  | cons e l ih =>
    obtain ⟨u,v,l₁,_,ht,rfl⟩ := traverse_cons_ok.mp h
    simp [ih ht]

/-- A condition on every visit, in the state that earlier visits lead to. -/
def Visits {κ ν τ : Type} (next : τ → κ → τ) (P : τ → κ → ν → Prop) : τ → List (κ × ν) → Prop
  | _,[] => True
  | t,e :: l => P t e.1 e.2 ∧ Visits next P (next t e.1) l

/-- A condition that needs no state is one on every entry. -/
theorem visits_const {κ ν τ : Type} {next : τ → κ → τ} {P : κ → ν → Prop} {t : τ}
    {l : List (κ × ν)} : Visits next (fun _ => P) t l ↔ ∀ e ∈ l, P e.1 e.2 := by
  induction l generalizing t with
  | nil => simp [Visits]
  | cons e l ih => simp [Visits, ih]

/-- A condition that holds wherever an invariant does. -/
theorem visits_of_invariant {κ ν τ : Type} {next : τ → κ → τ} {P : τ → κ → ν → Prop} {I : τ → Prop}
    {t : τ} {l : List (κ × ν)} (hP : ∀ t, ∀ e ∈ l, I t → P t e.1 e.2)
    (hnext : ∀ t, ∀ e ∈ l, I t → I (next t e.1)) (ht : I t) : Visits next P t l := by
  induction l generalizing t with
  | nil => trivial
  | cons e l ih =>
    refine ⟨hP t e List.mem_cons_self ht,ih ?_ ?_ (hnext t e List.mem_cons_self ht)⟩
    · exact fun t e he => hP t e (List.mem_cons_of_mem _ he)
    · exact fun t e he => hnext t e (List.mem_cons_of_mem _ he)

/-- A traversal completes exactly when each of its visits does, where what the visits depend
on of the state is known in advance. -/
theorem traverse_completes_iff {κ ν μ σ τ ε : Type} {f : σ → κ → ν → Except ε (σ × μ)}
    {view : σ → τ} {next : τ → κ → τ} {P : τ → κ → ν → Prop}
    (hf : ∀ s k v, Completes (f s k v) ↔ P (view s) k v)
    (hnext : ∀ s k v t w, f s k v = .ok (t,w) → view t = next (view s) k)
    {s : σ} {l : List (κ × ν)} : Completes (traverse f s l) ↔ Visits next P (view s) l := by
  induction l generalizing s with
  | nil => simp [traverse, Visits]
  | cons e l ih =>
    rw [traverse, completes_bind, Visits, ← hf]
    constructor
    · rintro ⟨⟨t,w⟩,he,h⟩
      rw [completes_bind_ok, ih, hnext _ _ _ _ _ he] at h
      exact ⟨⟨_,he⟩,h⟩
    · rintro ⟨⟨⟨t,w⟩,he⟩,h⟩
      refine ⟨⟨t,w⟩,he,?_⟩
      rwa [completes_bind_ok, ih, hnext _ _ _ _ _ he]

/-- Two traversals in lockstep, their states and the values they leave related. -/
theorem traverse_related {κ ν μ μ' σ τ ε ε' : Type} {f : σ → κ → ν → Except ε (σ × μ)}
    {g : τ → κ → ν → Except ε' (τ × μ')} {R : σ → τ → Prop} {Q : κ → ν → μ → μ' → Prop}
    {l : List (κ × ν)}
    (hstep : ∀ s t k v, (k,v) ∈ l → R s t → ∀ s' w, f s k v = .ok (s',w) →
      ∃ t' w', g t k v = .ok (t',w') ∧ R s' t' ∧ Q k v w w')
    {s s' : σ} {t : τ} {l₁ : List (κ × μ)} (hR : R s t) (h : traverse f s l = .ok (s',l₁)) :
    ∃ t' l₂, traverse g t l = .ok (t',l₂) ∧ R s' t' ∧
      ∀ k v, (k,v) ∈ l → ∃ w w', (k,w) ∈ l₁ ∧ (k,w') ∈ l₂ ∧ Q k v w w' := by
  induction l generalizing s t l₁ with
  | nil =>
    cases h
    exact ⟨t,[],rfl,hR,by simp⟩
  | cons e l ih =>
    obtain ⟨u,w,l₁',hu,hl,rfl⟩ := traverse_cons_ok.mp h
    obtain ⟨u',w',hu',hR',hQ⟩ := hstep s t e.1 e.2 (by simp) hR u w hu
    obtain ⟨t',l₂,ht,hR'',hall⟩ := ih (fun s t k v hkv => hstep s t k v (by simp [hkv])) hR' hl
    refine ⟨t',(e.1,w') :: l₂,traverse_cons_ok.mpr ⟨u',w',l₂,hu',ht,rfl⟩,hR'',?_⟩
    intro k v hkv
    rcases List.mem_cons.mp hkv with he | hkv
    · subst he
      exact ⟨w,w',by simp,by simp,hQ⟩
    · obtain ⟨w₁,w₂,h₁,h₂,hq⟩ := hall k v hkv
      exact ⟨w₁,w₂,by simp [h₁],by simp [h₂],hq⟩

/-- A map over a linearly ordered key type; the entries are in strictly ascending order. -/
structure OMap (κ ν : Type) [LinearOrder κ] where
  entries : List (κ × ν)
  sorted : (entries.map Prod.fst).Pairwise (· < ·)

namespace OMap
variable {κ ν μ σ ε : Type} [LinearOrder κ]

abbrev keyLT (a b : κ) : Bool := decide (a < b)

theorem ext_entries {m m' : OMap κ ν} (h : m.entries = m'.entries) : m = m' := by
  cases m; cases m'; simpa using h

def empty : OMap κ ν := ⟨[],List.Pairwise.nil⟩

instance : EmptyCollection (OMap κ ν) := ⟨empty⟩

def find? (m : OMap κ ν) (k : κ) : Option ν := lookup keyLT k m.entries

lemma orderedBy_keyLT {l : List (κ × ν)} :
    OrderedBy keyLT l ↔ (l.map Prod.fst).Pairwise (· < ·) := by
  simp only [OrderedBy, decide_eq_true_eq, List.pairwise_map]

lemma insertNew_sorted (k : κ) (v : ν) {l : List (κ × ν)}
    (h : (l.map Prod.fst).Pairwise (· < ·)) :
    ((CLib.insertNew keyLT k v l).map Prod.fst).Pairwise (· < ·) := by
  rw [← orderedBy_keyLT] at h ⊢
  apply insertNew_orderedBy h
  intro a _ b _ hka hab
  rw [decide_eq_true_eq] at hka hab ⊢
  exact hka.trans hab

/-- `std::map::insert`: an entry that is already there stays as it is. -/
def insertNew (m : OMap κ ν) (k : κ) (v : ν) : OMap κ ν :=
  ⟨CLib.insertNew keyLT k v m.entries,insertNew_sorted k v m.sorted⟩

/-- Update the value a key refers to. -/
def modify (m : OMap κ ν) (k : κ) (f : ν → ν) : OMap κ ν where
  entries := m.entries.map (fun e => (e.1,if e.1 = k then f e.2 else e.2))
  sorted := by simpa [List.map_map, Function.comp_def] using m.sorted

/-- What is seen of each value. -/
def map (m : OMap κ ν) (g : ν → μ) : OMap κ μ where
  entries := m.entries.map (fun e => (e.1,g e.2))
  sorted := by simpa [List.map_map, Function.comp_def] using m.sorted

/-- Keep the entries whose key satisfies a test. -/
def filter (m : OMap κ ν) (p : κ → Bool) : OMap κ ν where
  entries := m.entries.filter (fun e => p e.1)
  sorted := m.sorted.sublist (List.filter_sublist.map _)

/-- Visit every value in key order, threading a state. -/
def traverse (m : OMap κ ν) (f : σ → κ → ν → Except ε (σ × μ)) (s : σ) :
    Except ε (σ × OMap κ μ) :=
  match h : CLib.traverse f s m.entries with
  | .error e => .error e
  | .ok (t,l) => .ok (t,⟨l,by rw [traverse_keys h]; exact m.sorted⟩)

theorem traverse_ok {m : OMap κ ν} {f : σ → κ → ν → Except ε (σ × μ)} {s t : σ} {m' : OMap κ μ} :
    m.traverse f s = .ok (t,m') ↔ CLib.traverse f s m.entries = .ok (t,m'.entries) := by
  unfold traverse
  split
  · rename_i h
    simp [h]
  · rename_i t' l h
    simp only [h, Except.ok.injEq, Prod.mk.injEq, and_congr_right_iff]
    rintro rfl
    exact ⟨fun he => congrArg entries he,fun he => ext_entries he⟩

@[simp] theorem completes_traverse {m : OMap κ ν} {f : σ → κ → ν → Except ε (σ × μ)} {s : σ} :
    Completes (m.traverse f s) ↔ Completes (CLib.traverse f s m.entries) := by
  unfold traverse
  split
  · rename_i h
    simp [h]
  · rename_i t l h
    simp [h]

lemma lookup_eq_some {k : κ} {v : ν} {l : List (κ × ν)}
    (h : (l.map Prod.fst).Pairwise (· < ·)) : lookup keyLT k l = some v ↔ (k,v) ∈ l := by
  induction l with
  | nil => simp [lookup]
  | cons e l ih =>
    obtain ⟨he,hl⟩ := List.pairwise_cons.mp h
    have hlt : ∀ {j w}, (j,w) ∈ l → e.1 < j := fun hm => he _ (List.mem_map_of_mem hm)
    obtain ⟨j,w⟩ := e
    simp only [lookup, decide_eq_true_eq, List.mem_cons, Prod.mk.injEq]
    rcases lt_trichotomy j k with hj | rfl | hj
    · simp [hj, ih hl, hj.ne']
    · simp only [lt_self_iff_false, if_false, Option.some.injEq, true_and]
      constructor
      · rintro rfl
        exact .inl rfl
      · rintro (rfl | hm)
        · rfl
        · exact absurd (hlt hm) (lt_irrefl _)
    · simp only [hj.not_gt, hj, if_true, if_false, reduceCtorEq, hj.ne, false_and, false_or,
        false_iff]
      exact fun hm => lt_asymm hj (hlt hm)

/-- The entries are the graph of the lookup. -/
theorem mem_entries {m : OMap κ ν} {k : κ} {v : ν} : (k,v) ∈ m.entries ↔ m.find? k = some v :=
  (lookup_eq_some m.sorted).symm

theorem nodup_keys (m : OMap κ ν) : (m.entries.map Prod.fst).Nodup :=
  m.sorted.imp fun h => h.ne

theorem nodup_entries (m : OMap κ ν) : m.entries.Nodup := m.nodup_keys.of_map _

theorem find?_eq_none {m : OMap κ ν} {k : κ} : m.find? k = none ↔ k ∉ m.entries.map Prod.fst := by
  rw [Option.eq_none_iff_forall_ne_some]
  simp [← mem_entries]

/-- Two maps with the same lookups are the same map. -/
theorem ext_find? {m m' : OMap κ ν} (h : ∀ k, m.find? k = m'.find? k) : m = m' := by
  apply ext_entries
  have hp : m.entries.Perm m'.entries := by
    rw [List.perm_ext_iff_of_nodup m.nodup_entries m'.nodup_entries]
    rintro ⟨k,v⟩
    rw [mem_entries, mem_entries, h]
  have hs : ∀ m : OMap κ ν, m.entries.Pairwise (fun a b => a.1 < b.1) := fun m =>
    List.pairwise_map.mp m.sorted
  exact hp.eq_of_pairwise (fun a b _ _ hab hba => absurd hab (lt_asymm hba)) (hs m) (hs m')

@[simp] theorem find?_empty (k : κ) : (∅ : OMap κ ν).find? k = none := rfl

@[simp] theorem entries_empty : (∅ : OMap κ ν).entries = [] := rfl

lemma lookup_insertNew (k j : κ) (v : ν) (l : List (κ × ν)) :
    lookup keyLT j (CLib.insertNew keyLT k v l) =
      if j = k then some ((lookup keyLT k l).getD v) else lookup keyLT j l := by
  induction l with
  | nil =>
    simp only [CLib.insertNew, lookup, decide_eq_true_eq]
    split_ifs <;> grind
  | cons e l ih =>
    simp only [CLib.insertNew, lookup, decide_eq_true_eq]
    split_ifs <;> grind [lookup]

theorem find?_insertNew (m : OMap κ ν) (k j : κ) (v : ν) :
    (m.insertNew k v).find? j = if j = k then some ((m.find? k).getD v) else m.find? j :=
  lookup_insertNew k j v m.entries

theorem find?_modify (m : OMap κ ν) (k j : κ) (f : ν → ν) :
    (m.modify k f).find? j = if j = k then (m.find? k).map f else m.find? j := by
  change lookup keyLT j (m.entries.map (fun e => (e.1,if e.1 = k then f e.2 else e.2))) =
    if j = k then (lookup keyLT k m.entries).map f else lookup keyLT j m.entries
  induction m.entries with
  | nil => simp [lookup]
  | cons e l ih =>
    simp only [List.map_cons, lookup, decide_eq_true_eq]
    split_ifs <;> grind

@[simp] theorem find?_map (m : OMap κ ν) (g : ν → μ) (k : κ) :
    (m.map g).find? k = (m.find? k).map g := by
  change lookup keyLT k (m.entries.map (fun e => (e.1,g e.2))) = (lookup keyLT k m.entries).map g
  induction m.entries with
  | nil => rfl
  | cons e l ih =>
    rw [List.map_cons, lookup, lookup, ih]
    split_ifs <;> rfl

theorem find?_filter (m : OMap κ ν) (p : κ → Bool) (k : κ) :
    (m.filter p).find? k = if p k then m.find? k else none := by
  ext v
  rw [← mem_entries]
  simp only [filter, List.mem_filter, mem_entries]
  by_cases h : p k <;> simp [h]

@[simp] theorem find?_insertNew_self (m : OMap κ ν) (k : κ) (v : ν) :
    (m.insertNew k v).find? k = some ((m.find? k).getD v) := by simp [find?_insertNew]

/-- Inserting under a key that is present changes nothing. -/
theorem insertNew_of_mem {m : OMap κ ν} {k : κ} {v w : ν} (h : m.find? k = some w) :
    m.insertNew k v = m := by
  apply ext_find?
  intro j
  rw [find?_insertNew]
  split_ifs with hj
  · simp [hj, h]
  · rfl

/-- An update that leaves the value it refers to alone changes nothing. -/
theorem modify_eq_self {m : OMap κ ν} {k : κ} {f : ν → ν} (h : ∀ v, m.find? k = some v → f v = v) :
    m.modify k f = m := by
  apply ext_find?
  intro j
  rw [find?_modify]
  split_ifs with hj
  · cases hv : m.find? k with
    | none => rw [hj, hv]; rfl
    | some v => rw [hj, hv, Option.map_some, h v hv]
  · rfl

theorem find?_traverse_eq_none {m : OMap κ ν} {f : σ → κ → ν → Except ε (σ × μ)} {s t : σ}
    {m' : OMap κ μ} (h : m.traverse f s = .ok (t,m')) (k : κ) :
    m'.find? k = none ↔ m.find? k = none := by
  rw [find?_eq_none, find?_eq_none, traverse_keys (traverse_ok.mp h)]

/-- The same for the entries of a map. -/
theorem traverse_related {τ μ' ε' : Type} {m : OMap κ ν} {f : σ → κ → ν → Except ε (σ × μ)}
    {g : τ → κ → ν → Except ε' (τ × μ')} {R : σ → τ → Prop} {Q : κ → ν → μ → μ' → Prop}
    (hstep : ∀ s t k v, m.find? k = some v → R s t → ∀ s' w, f s k v = .ok (s',w) →
      ∃ t' w', g t k v = .ok (t',w') ∧ R s' t' ∧ Q k v w w')
    {s s' : σ} {t : τ} {m₁ : OMap κ μ} (hR : R s t) (h : m.traverse f s = .ok (s',m₁)) :
    ∃ t' m₂, m.traverse g t = .ok (t',m₂) ∧ R s' t' ∧ ∀ k v, m.find? k = some v →
      ∃ w w', m₁.find? k = some w ∧ m₂.find? k = some w' ∧ Q k v w w' := by
  obtain ⟨t',l₂,hg,hR',hall⟩ := CLib.traverse_related (Q := Q)
    (fun s t k v hkv => hstep s t k v (mem_entries.mp hkv)) hR (traverse_ok.mp h)
  refine ⟨t',⟨l₂,by rw [traverse_keys hg]; exact m.sorted⟩,traverse_ok.mpr hg,hR',?_⟩
  intro k v hv
  obtain ⟨w,w',h₁,h₂,hq⟩ := hall k v (mem_entries.mpr hv)
  exact ⟨w,w',mem_entries.mp h₁,mem_entries.mp h₂,hq⟩

/-- What every visit ensures of the value it leaves holds of the values a traversal leaves. -/
theorem find?_traverse {m : OMap κ ν} {f : σ → κ → ν → Except ε (σ × μ)} {Q : κ → ν → μ → Prop}
    (hf : ∀ s t k v w, f s k v = .ok (t,w) → Q k v w) {s t : σ} {m' : OMap κ μ}
    (h : m.traverse f s = .ok (t,m')) {k : κ} {v : ν} (hv : m.find? k = some v) :
    ∃ w, m'.find? k = some w ∧ Q k v w := by
  obtain ⟨_,_,_,_,hall⟩ := traverse_related (R := Eq) (Q := fun k v w _ => Q k v w)
    (fun s t k v _ hR s' w hs => ⟨s',w,hR ▸ hs,rfl,hf s s' k v w hs⟩) rfl h
  obtain ⟨w,_,hw,_,hq⟩ := hall k v hv
  exact ⟨w,hw,hq⟩

/-- The invariant rule: what every visit preserves of the state, and what it ensures then of the
value it leaves. -/
theorem traverse_invariant {m : OMap κ ν} {f : σ → κ → ν → Except ε (σ × μ)} {I : σ → Prop}
    {Q : κ → μ → Prop}
    (hstep : ∀ s t k v w, m.find? k = some v → I s → f s k v = .ok (t,w) → I t ∧ Q k w)
    {s t : σ} {m' : OMap κ μ} (hs : I s) (h : m.traverse f s = .ok (t,m')) :
    I t ∧ ∀ k w, m'.find? k = some w → Q k w := by
  obtain ⟨t',m₂,hg,⟨rfl,hI⟩,hall⟩ := traverse_related (g := f) (R := fun s s' => s = s' ∧ I s)
    (Q := fun k _ w _ => Q k w) (fun s s' k v hv hR t w hf => by
      obtain ⟨rfl,hI⟩ := hR
      obtain ⟨ht,hq⟩ := hstep s t k v w hv hI hf
      exact ⟨t,w,hf,⟨rfl,ht⟩,hq⟩) ⟨rfl,hs⟩ h
  refine ⟨hI,fun k w hw => ?_⟩
  obtain ⟨v,hv⟩ := Option.ne_none_iff_exists'.mp fun hno => by
    rw [(find?_traverse_eq_none h k).mpr hno] at hw
    cases hw
  obtain ⟨w₁,_,h₁,_,hq⟩ := hall k v hv
  cases h₁.symm.trans hw
  exact hq

end OMap
end CLib
