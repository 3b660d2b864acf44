import Cphf.Readers.FileStat

/-! The link target of a file: `readFileName` asks for a larger block as long as the answer
fills the one it has, so it completes exactly when every block it asks for is there. -/
namespace Cphf
open CLib

/-- The size of the block in a round of `readFileName`. -/
def blockSize (round : ℕ) : ℕ := 1024*4^round

theorem blockSize_succ (round : ℕ) : blockSize round <<< 2 = blockSize (round+1) := by
  rw [Nat.shiftLeft_eq, blockSize, blockSize, pow_succ]
  omega

theorem lt_blockSize (round : ℕ) : round < blockSize round := by
  have h : round < 4^round := Nat.lt_pow_self (by decide)
  unfold blockSize
  omega

/-- The answer of a round fills its block. -/
def System.fills (sys : System) (path : Text) (round : ℕ) : Prop :=
  ∃ target, sys.readlink path round = some target ∧ blockSize round ≤ target.length

/-- From a round on, the allocator grants every block that is asked for: the first, and one
more whenever all answers before it filled theirs. -/
def System.grants (sys : System) (path : Text) (first : ℕ) : Prop :=
  ∀ n ≥ first, (∀ i, first ≤ i → i < n → sys.fills path i) → sys.allocates path n = true

theorem System.grants_iff (sys : System) (path : Text) (n : ℕ) : sys.grants path n ↔
    sys.allocates path n = true ∧ (sys.fills path n → sys.grants path (n+1)) := by
  constructor
  · intro h
    refine ⟨h n le_rfl fun i hi hin => absurd hin hi.not_gt,fun hf m hm hall => ?_⟩
    apply h m (by omega)
    intro i hi him
    rcases hi.eq_or_lt with rfl | hi
    · exact hf
    · exact hall i hi him
  · rintro ⟨hn,hrest⟩ m hm hall
    rcases hm.eq_or_lt with rfl | hm
    · exact hn
    · exact hrest (hall n le_rfl hm) m hm fun i hi him => hall i (by omega) him

/-- A block whose cells are zero up to its last one. -/
def Cleared (size : ℕ) (b : Block) : Prop :=
  ∃ last, b = (List.replicate size '\x00').map some ++ [last]

theorem clearedBlock_some {b : Block} {size : ℕ} (h : b.length = size+1) :
    ∃ b', clearedBlock (some b) size = .ok b' ∧ Cleared size b' := by
  have hlen : (List.replicate size '\x00').length ≤ b.length := by simp [h]
  refine ⟨_,by rw [clearedBlock, Block.write_ok hlen]; rfl,?_⟩
  have hdrop : (b.drop size).length = 1 := by simp [h]
  obtain ⟨last,hlast⟩ := List.length_eq_one_iff.mp hdrop
  exact ⟨last,by rw [List.length_replicate, hlast]⟩

theorem Cleared.length {size : ℕ} {b : Block} (h : Cleared size b) : b.length = size+1 := by
  obtain ⟨last,rfl⟩ := h
  simp

/-- Finishing a block reads what was written to its front, when that does not fill it. -/
theorem finishName_written {size : ℕ} {b : Block} (h : Cleared size b) {s : Text}
    (hs : s.length < size) :
    finishName (s.map some ++ b.drop s.length) size = .ok (c_str s) := by
  have hlen : (s.map some ++ b.drop s.length).length = size+1 := by
    simp [h.length]
    omega
  have hfront : (s.map some ++ b.drop s.length).take (s.length+1) = (s ++ ['\x00']).map some := by
    obtain ⟨last,rfl⟩ := h
    obtain ⟨k,rfl⟩ : ∃ k, size = s.length+(k+1) := ⟨size-s.length-1,by omega⟩
    rw [List.take_append, List.take_of_length_le (by simp), List.drop_append_of_le_length (by simp)]
    simp [List.replicate_succ]
  rw [finishName, Block.put_ok (by omega)]
  change ((_ : Block).string).mapError _ = _
  rw [Block.string_of_take (s := s)]
  · rfl
  · rw [List.take_set_of_le (by omega), hfront]

/-- One call to `readlink` on a cleared block. -/
theorem readlink_ok (sys : System) (path : Text) (round : ℕ) {size : ℕ} {b : Block}
    (h : b.length = size+1) : readlink sys path round size b =
      match sys.readlink path round with
      | none => .ok (b,-1)
      | some target => .ok ((target.take size).map some ++ b.drop (target.take size).length,
          (target.take size).length) := by
  unfold readlink
  cases sys.readlink path round with
  | none => rfl
  | some target =>
    dsimp only
    rw [Block.write_ok (by simp [h])]
    rfl

/-- One round on a cleared block; the block of the next round is cleared again. -/
theorem readFileNameLoop_succ (sys : System) (path : Text) (fuel round : ℕ) {b : Block}
    (hb : Cleared (blockSize round) b) : ∃ b', Cleared (blockSize (round+1)) b' ∧
      readFileNameLoop sys path (fuel+1) round b (blockSize round) =
        match sys.readlink path round with
        | none => .ok []
        | some target =>
          if blockSize round ≤ target.length then
            if sys.allocates path (round+1) then
              readFileNameLoop sys path fuel (round+1) b' (blockSize (round+1))
            else .error .nullBuffer
          else .ok (c_str target) := by
  have hpos := lt_blockSize round
  have hgrow : ∀ s : Text, s.length = blockSize round →
      ∃ b', clearedBlock (some (Block.grow (s.map some ++ b.drop s.length) (blockSize (round+1)+1)))
        (blockSize (round+1)) = .ok b' ∧ Cleared (blockSize (round+1)) b' := by
    intro s hs
    refine clearedBlock_some (Block.length_grow ?_)
    have hle : blockSize round ≤ blockSize (round+1) := by
      rw [← blockSize_succ, Nat.shiftLeft_eq]
      omega
    simp only [List.length_append, List.length_map, List.length_drop, hb.length]
    omega
  rw [readFileNameLoop, readlink_ok sys path round hb.length, blockSize_succ]
  cases sys.readlink path round with
  | none =>
    obtain ⟨b',_,hb'⟩ := hgrow (List.replicate (blockSize round) '\x00') (by simp)
    have hne : ¬ (-1 : ℤ) = blockSize round := by omega
    refine ⟨b',hb',?_⟩
    rw [ok_bind, if_neg hne]
    exact finishName_written hb (s := []) (by simp; omega)
  | some target =>
    rw [ok_bind]
    by_cases hfull : blockSize round ≤ target.length
    · have htake : (target.take (blockSize round)).length = blockSize round := by simp [hfull]
      obtain ⟨b',hc,hb'⟩ := hgrow _ htake
      refine ⟨b',hb',?_⟩
      dsimp only
      rw [if_pos (by rw [htake]), if_pos hfull]
      cases sys.allocates path (round+1) with
      | false => rfl
      | true =>
        rw [if_pos rfl, if_pos rfl, hc]
        rfl
    · obtain ⟨b',_,hb'⟩ := hgrow (List.replicate (blockSize round) '\x00') (by simp)
      have htake : target.take (blockSize round) = target := List.take_of_length_le (by omega)
      refine ⟨b',hb',?_⟩
      dsimp only
      rw [htake, if_neg (by omega), if_neg hfull]
      exact finishName_written hb (by omega)

/-- The loop from a round on: it completes exactly when the allocator grants the blocks that
are still asked for, and its result is the last answer up to a NUL. -/
theorem readFileNameLoop_spec (sys : System) (path : Text) (fuel round : ℕ) {b : Block}
    (hb : Cleared (blockSize round) b) (hround : round ≤ sys.linkMax)
    (hfuel : fuel+round = sys.linkMax+1) :
    (Completes (readFileNameLoop sys path fuel round b (blockSize round)) ↔
      (sys.fills path round → sys.grants path (round+1))) ∧
    ∀ v, readFileNameLoop sys path fuel round b (blockSize round) = .ok v →
      v = [] ∨ ∃ n target, sys.readlink path n = some target ∧ v = c_str target := by
  induction fuel generalizing round b with
  | zero => omega
  | succ fuel ih =>
    obtain ⟨b',hb',hstep⟩ := readFileNameLoop_succ sys path fuel round hb
    rw [hstep]
    unfold System.fills
    cases hl : sys.readlink path round with
    | none => simp
    | some target =>
      by_cases hfull : blockSize round ≤ target.length
      · have hle := sys.readlink_le path round target hl
        have hlt := lt_blockSize round
        rw [sys.grants_iff path (round+1)]
        cases sys.allocates path (round+1) with
        | false => simp [hfull]
        | true => simpa [hfull] using ih (round+1) hb' (by omega) (by omega)
      · simp only [hfull, if_false, completes_ok, Option.some.injEq, exists_eq_left',
          false_imp_iff, true_and, Except.ok.injEq, forall_eq']
        exact .inr ⟨round,target,hl,rfl⟩

section
variable (sys : System) (path : Text)

lemma readFileName_spec : (Completes (readFileName sys path) ↔ sys.grants path 0) ∧
    ∀ v, readFileName sys path = .ok v →
      v = [] ∨ ∃ n target, sys.readlink path n = some target ∧ v = c_str target := by
  rw [sys.grants_iff]
  unfold readFileName
  cases sys.allocates path 0 with
  | false => simp [clearedBlock]
  | true =>
    obtain ⟨b,hc,hb⟩ := clearedBlock_some (Block.length_alloc (blockSize 0+1))
    have hspec := readFileNameLoop_spec sys path (sys.linkMax+1) 0 hb (Nat.zero_le _) rfl
    have hstart : (clearedBlock (if true = true then some (Block.alloc (1024+1)) else none) 1024 >>=
        fun filename => readFileNameLoop sys path (sys.linkMax+1) 0 filename 1024) =
          readFileNameLoop sys path (sys.linkMax+1) 0 b (blockSize 0) := by
      rw [if_pos rfl]
      exact congrArg (· >>= _) hc
    dsimp only
    rw [hstart]
    simpa using hspec

/-- A link target is read exactly when the blocks asked for are granted. -/
theorem readFileName_completes_iff : Completes (readFileName sys path) ↔ sys.grants path 0 :=
  (readFileName_spec sys path).1

/-- What is read is an answer of `readlink` up to a NUL, or nothing. -/
theorem readFileName_eq_ok {v : Text} (h : readFileName sys path = .ok v) :
    v = [] ∨ ∃ n target, sys.readlink path n = some target ∧ v = c_str target :=
  (readFileName_spec sys path).2 v h

/-- A round is the last: all answers before it filled their blocks, and its own does not. -/
def System.lastCall (n : ℕ) : Prop := (∀ i < n, sys.fills path i) ∧ ¬ sys.fills path n

end

section
variable {sys : System} {path : Text}

/-- A block that is asked for is at most four times as long as the longest answer. -/
theorem System.lastCall.blockSize_le {n : ℕ} (h : sys.lastCall path n) :
    blockSize n ≤ max 1024 (4*sys.linkMax) := by
  cases n with
  | zero => exact le_max_left _ _
  | succ n =>
    obtain ⟨target,ht,hle⟩ := h.1 n (Nat.lt_succ_self n)
    have hmax := sys.readlink_le path n target ht
    have hsize := blockSize_succ n
    rw [Nat.shiftLeft_eq] at hsize
    exact le_max_of_le_right (by omega)

/-- The loop goes on to the last call and gives its answer. -/
theorem readFileNameLoop_lastCall (halloc : ∀ n, sys.allocates path n = true)
    (hnul : ∀ n target, sys.readlink path n = some target → '\x00' ∉ target) (fuel round : ℕ)
    {b : Block} (hb : Cleared (blockSize round) b) (hround : round ≤ sys.linkMax)
    (hfuel : fuel+round = sys.linkMax+1) (hbefore : ∀ i < round, sys.fills path i) :
    ∃ n, sys.lastCall path n ∧ readFileNameLoop sys path fuel round b (blockSize round) =
      .ok ((sys.readlink path n).getD []) := by
  induction fuel generalizing round b with
  | zero => omega
  | succ fuel ih =>
    obtain ⟨b',hb',hstep⟩ := readFileNameLoop_succ sys path fuel round hb
    rw [hstep]
    cases hl : sys.readlink path round with
    | none =>
      refine ⟨round,⟨hbefore,?_⟩,by rw [hl]; rfl⟩
      rintro ⟨target,ht,_⟩
      cases hl.symm.trans ht
    | some target =>
      dsimp only
      by_cases hfull : blockSize round ≤ target.length
      · have hle := sys.readlink_le path round target hl
        have hlt := lt_blockSize round
        rw [if_pos hfull, if_pos (halloc _)]
        apply ih (round+1) hb' (by omega) (by omega)
        intro i hi
        rcases Nat.lt_succ_iff_lt_or_eq.mp hi with hi | rfl
        · exact hbefore i hi
        · exact ⟨target,hl,hfull⟩
      · rw [if_neg hfull, c_str_of_no_nul (hnul round target hl)]
        refine ⟨round,⟨hbefore,?_⟩,by rw [hl]; rfl⟩
        rintro ⟨t,ht,hle⟩
        cases hl.symm.trans ht
        exact hfull hle

/-- A target that fills the first block and is a shorter one at the second call. -/
def renamedLink : System :=
  { (default : System) with
    readlink := fun _ round => some (List.replicate (if round = 0 then 1024 else 5) 'a')
    linkMax := 1024
    readlink_le := by
      intro _ round target h
      rw [← Option.some.inj h, List.length_replicate]
      split <;> decide }

end
end Cphf
