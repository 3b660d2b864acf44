import Cphf.Lsof.Agreement

/-! Which bytes `bufferedRead` gets through. Its faults depend only on which of its variables are
set, so a machine with three flags meets the same faults; the streams that machine accepts are
those whose records come after what they need. -/
namespace Cphf
open CLib

/-- Which of the loop's variables are set. -/
structure Pointers where
  pf : Bool
  ulf : Bool
  charbuff : Bool
  deriving DecidableEq

namespace Pointers

def init : Pointers := ⟨false,false,false⟩

/-- The switch of one iteration, as far as its faults go. -/
def dispatch (s : Pointers) : Option LsofFlag → Except Fault Pointers
  | none => .ok s
  | some .fd =>
    if s.charbuff then if s.pf then .ok { s with ulf := true } else .error .nullProcess
    else .error .uninitialized
  | some .flags => if s.ulf then .ok s else .error .nullFile
  | some .pid => if s.charbuff then .ok { s with pf := true } else .error .uninitialized

def step (s : Pointers) (t : Token) : Except Fault Pointers :=
  match t.value with
  | none => s.dispatch t.flag
  | some w =>
    if w.length < bufferSize then { s with charbuff := true }.dispatch t.flag
    else .error .bufferOverflow

end Pointers

namespace LsofLoop
variable {T : UInt64} {st st' : LsofLoop}

def pointers (st : LsofLoop) : Pointers := ⟨st.pf.isSome,st.ulf.isSome,st.charbuff.isSome⟩

lemma pointers_outcome (flag : Option LsofFlag) (value : Option Text) :
    pointers <$> st.outcome T flag value =
      (⟨st.pf.isSome,st.ulf.isSome,value.isSome⟩ : Pointers).dispatch flag := by
  unfold outcome Pointers.dispatch
  cases flag with
  | none => rfl
  | some flag =>
    cases flag with
    | fd =>
      cases value with
      | none => rfl
      | some w => cases hp : st.pf <;> simp [pointers, afterFd, hp, Functor.map, Except.map]
    | flags => cases hu : st.ulf <;> simp [pointers, afterFlags, hu, Functor.map, Except.map]
    | pid =>
      cases value with
      | none => rfl
      | some w => rfl

/-- An iteration of the loop is a step of the machine. -/
theorem pointers_iterate (hs : st.strbuff = []) (t : Token) :
    pointers <$> st.iterate T t = st.pointers.step t := by
  unfold Pointers.step
  cases hv : t.value with
  | none =>
    rw [iterate_eq hs (by simp [hv]), pointers_outcome, effective, hv, Option.none_or]
    rfl
  | some w =>
    dsimp only
    split_ifs with hw
    · rw [iterate_eq hs (by simpa [hv] using hw), pointers_outcome, effective, hv, Option.some_or]
      rfl
    · rw [iterate_overflow hv (Nat.not_lt.mp hw)]
      rfl

lemma strbuff_iterate {t : Token} (h : st.iterate T t = .ok st') : st'.strbuff = [] := by
  obtain ⟨u,_,h⟩ := bind_eq_ok.mp h
  obtain ⟨v,_,he⟩ := bind_eq_ok.mp h
  cases he
  rfl

theorem pointers_run (hs : st.strbuff = []) (ts : List Token) :
    pointers <$> run (iterate T) st ts = run Pointers.step st.pointers ts := by
  induction ts generalizing st with
  | nil => rfl
  | cons t ts ih =>
    rw [run_cons, run_cons, ← pointers_iterate (T := T) hs]
    cases h : st.iterate T t with
    | error e => rfl
    | ok u => exact ih (strbuff_iterate h)

end LsofLoop

/-- The faults of `bufferedRead` are those of the machine, whatever store it starts from. -/
theorem pointers_bufferedRead (T : UInt64) (m : ProcMap) (fin : Text) :
    LsofLoop.pointers <$> bufferedReadState T m fin = run Pointers.step .init (tokens fin) := by
  rw [bufferedReadState_eq_run, LsofLoop.pointers_run rfl]
  rfl

/-- A token finds what it needs among the tokens before it. -/
structure Token.Readable (pre : List Token) (t : Token) : Prop where
  short : ∀ w, t.value = some w → w.length < bufferSize
  buffer : t.flag = some .fd ∨ t.flag = some .pid → t.value ≠ none ∨ ∃ u ∈ pre, u.value ≠ none
  pf : t.flag = some .fd → ∃ u ∈ pre, u.flag = some .pid
  ulf : t.flag = some .flags → ∃ u ∈ pre, u.flag = some .fd

namespace Pointers

/-- What is set once these tokens have been read. -/
def after (ts : List Token) : Pointers where
  pf := ts.any (·.flag = some .pid)
  ulf := ts.any (·.flag = some .fd)
  charbuff := ts.any (·.value ≠ none)

theorem step_after (pre : List Token) (t : Token) (s : Pointers) :
    (after pre).step t = .ok s ↔ t.Readable pre ∧ s = after (pre ++ [t]) := by
  have hbuffer : (after (pre ++ [t])).charbuff = true ↔
      t.value ≠ none ∨ ∃ u ∈ pre, u.value ≠ none := by
    simp [after, or_comm]
  have hpf : (after pre).pf = true ↔ ∃ u ∈ pre, u.flag = some .pid := by simp [after]
  have hulf : (after pre).ulf = true ↔ ∃ u ∈ pre, u.flag = some .fd := by simp [after]
  have hstep : (after pre).step t =
      if ∀ w, t.value = some w → w.length < bufferSize then
        (⟨(after pre).pf,(after pre).ulf,(after (pre ++ [t])).charbuff⟩ : Pointers).dispatch t.flag
      else .error .bufferOverflow := by
    unfold step
    cases hv : t.value with
    | none => simp [after, hv]
    | some w => simp [after, hv]
  have hafter : after (pre ++ [t]) = ⟨(after pre).pf || decide (t.flag = some .pid),
      (after pre).ulf || decide (t.flag = some .fd),(after (pre ++ [t])).charbuff⟩ := by simp [after]
  rw [hstep]
  by_cases hshort : ∀ w, t.value = some w → w.length < bufferSize
  · rw [if_pos hshort, hafter]
    generalize (after (pre ++ [t])).charbuff = charbuff at hbuffer ⊢
    have hread : t.Readable pre ↔
        (t.flag = some .fd ∨ t.flag = some .pid → charbuff = true) ∧
        (t.flag = some .fd → (after pre).pf = true) ∧
        (t.flag = some .flags → (after pre).ulf = true) := by
      rw [hbuffer, hpf, hulf]
      exact ⟨fun h => ⟨h.buffer,h.pf,h.ulf⟩,fun h => ⟨hshort,h.1,h.2.1,h.2.2⟩⟩
    rw [hread]
    unfold dispatch
    cases t.flag with
    | none => simp [@eq_comm _ s]
    | some flag => cases flag <;> cases charbuff <;> cases (after pre).pf <;>
        cases (after pre).ulf <;> simp [@eq_comm _ s]
  · rw [if_neg hshort]
    simp only [reduceCtorEq, false_iff]
    exact fun h => hshort h.1.short

theorem run_init_ok_iff {ts : List Token} {s : Pointers} :
    run step init ts = .ok s ↔
      (∀ pre t post, ts = pre ++ t :: post → t.Readable pre) ∧ s = after ts := by
  induction ts using List.reverseRecOn generalizing s with
  | nil => simp [init, after, eq_comm]
  | append_singleton ts t ih =>
    rw [run_snoc_ok]
    constructor
    · rintro ⟨u,hu,hs⟩
      obtain ⟨hpre,rfl⟩ := ih.mp hu
      obtain ⟨ht,rfl⟩ := (step_after ts t s).mp hs
      refine ⟨fun pre v post he => ?_,rfl⟩
      rcases List.eq_nil_or_concat' post with rfl | ⟨post,w,rfl⟩
      · obtain ⟨rfl,hv⟩ := List.append_inj' he rfl
        rw [← List.singleton_inj.mp hv]
        exact ht
      · rw [← List.cons_append, ← List.append_assoc] at he
        exact hpre pre v post (List.append_inj_left' he rfl)
    · rintro ⟨hall,rfl⟩
      refine ⟨after ts,ih.mpr ⟨fun pre v post he => hall pre v (post ++ [t]) (by simp [he]),rfl⟩,?_⟩
      exact (step_after ts t _).mpr ⟨hall ts t [] rfl,rfl⟩

end Pointers

/-- Only the last token of a stream can lack a value. -/
theorem tokens_value {fin : Text} {pre post : List Token} {t : Token}
    (h : tokens fin = pre ++ t :: post) (hv : t.value = none) : post = [] := by
  induction hn : fin.length using Nat.strong_induction_on generalizing fin pre with
  | _ n ih =>
    subst hn
    cases hnext : nextToken fin with
    | none =>
      rw [tokens_of_none hnext] at h
      simp at h
    | some r =>
      obtain ⟨t',rest⟩ := r
      rw [tokens_of_some hnext] at h
      cases pre with
      | cons u pre =>
        exact ih _ (nextToken_length hnext) (List.cons.inj h).2 rfl
      | nil =>
        obtain ⟨rfl,rfl⟩ := List.cons.inj h
        cases fin with
        | nil => cases hnext
        | cons c s =>
          rw [nextToken_cons] at hnext
          split_ifs at hnext <;> cases hnext
          · rfl
          · cases hv

/-- The values fit the buffer, the stream is more than the letter of a process, and what a record
refers to comes before it. -/
structure Readable (ts : List Token) : Prop where
  short : ∀ t ∈ ts, ∀ w, t.value = some w → w.length < bufferSize
  more : ts ≠ [⟨'p',none⟩]
  ordered : ∀ pre t post, ts = pre ++ t :: post →
    (t.flag = some .fd → ∃ u ∈ pre, u.flag = some .pid) ∧
    (t.flag = some .flags → ∃ u ∈ pre, u.flag = some .fd)

theorem LsofFlag.ofChar_eq_pid {c : Char} : ofChar c = some .pid ↔ c = 'p' := by
  unfold ofChar
  split_ifs with hf hp hG <;> simp_all

theorem readable_iff (fin : Text) : Readable (tokens fin) ↔
    ∀ pre t post, tokens fin = pre ++ t :: post → t.Readable pre := by
  constructor
  · rintro h pre t post he
    refine ⟨h.short t (by simp [he]),fun hf => ?_,(h.ordered pre t post he).1,
      (h.ordered pre t post he).2⟩
    cases hv : t.value with
    | some w => exact .inl (by simp)
    | none =>
      right
      cases pre with
      | cons u pre =>
        -- a token that another one follows has a value
        refine ⟨u,by simp,fun hu => ?_⟩
        have hsplit : tokens fin = [] ++ u :: (pre ++ t :: post) := he
        simpa using tokens_value hsplit hu
      | nil =>
        rcases hf with hf | hf
        · obtain ⟨u,hu,_⟩ := (h.ordered [] t post he).1 hf
          cases hu
        · obtain ⟨c,value⟩ := t
          cases hv
          cases LsofFlag.ofChar_eq_pid.mp hf
          cases tokens_value he rfl
          exact absurd he h.more
  · intro h
    refine ⟨fun t ht => ?_,fun he => ?_,fun pre t post he => ⟨(h pre t post he).pf,(h pre t post he).ulf⟩⟩
    · obtain ⟨pre,post,he⟩ := List.append_of_mem ht
      exact (h pre t post he).short
    · rcases (h [] _ [] he).buffer (.inr rfl) with hv | ⟨u,hu,_⟩
      · exact hv rfl
      · cases hu

theorem completes_bufferedRead (T : UInt64) (m : ProcMap) (fin : Text) :
    Completes (bufferedRead T m fin) ↔ Completes (run Pointers.step .init (tokens fin)) := by
  rw [bufferedRead, completes_map, ← pointers_bufferedRead T m fin, completes_map]

theorem Pointers.completes_iff (fin : Text) :
    Completes (run step .init (tokens fin)) ↔ Readable (tokens fin) := by
  rw [readable_iff]
  simp [Completes, run_init_ok_iff]

/-- Whatever the bytes and the store it starts from, `bufferedRead` gets through exactly when the
values fit the buffer, a stream is more than the letter of a process, every `f` record comes
after a `p` record and every `G` record after an `f` record. -/
theorem bufferedRead_completes_iff (T : UInt64) (m : ProcMap) (fin : Text) :
    Completes (bufferedRead T m fin) ↔ Readable (tokens fin) :=
  (completes_bufferedRead T m fin).trans (Pointers.completes_iff fin)

end Cphf
