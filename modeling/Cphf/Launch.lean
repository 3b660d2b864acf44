import Cphf.OptionErrors
import Cphf.Inventory

/-! When `lsof` cannot be run. The child that `fork` made exits instead, and with it goes a copy of
what stood in the buffer of `stdout`: the messages about the options are written to the pipe and
read as if `lsof` had said them. -/
namespace Cphf
open CLib

/-- How `stdout` is buffered: up to the end of a line, or in blocks. -/
inductive Buffering
  | line
  | full (size : ℕ)

/-- What is left in the buffer after a text was printed. A full block is written when the next
character comes. -/
def Buffering.left : Buffering → Text → Text
  | .line,t => t.rtakeWhile (· ≠ '\n')
  | .full size,t => t.drop ((t.length - 1) / size * size)

/-- What comes of the attempt to run `lsof`. -/
inductive Launch
  | noPipe
  | noFork
  | noExec
  | runs (bytes : Text)

/-- What `getFilesInfo` is left with, after a text was printed. A child that `execvp` returns to
calls `exit`, which writes what is left in its buffer to the pipe. -/
def Launch.answer (mode : Buffering) (printed : Text) : Launch → LsofAnswer
  | .noPipe => .noPipe
  | .noFork => .noFork
  | .noExec => .output (mode.left printed)
  | .runs bytes => .output bytes

/-- A field whose identifier and value stand apart, as the loop reads it. -/
theorem tokens_field {c d : Char} {gap w : Text} (hgap : Blanks gap) (hw : IsWord w)
    (hd : isspace d = true) (s : Text) :
    tokens (c :: (gap ++ (w ++ d :: s))) = ⟨c,some w⟩ :: tokens (skipSpace s) := by
  have hs : skipSpace (gap ++ (w ++ d :: s)) = w ++ d :: s := by
    rw [skipSpace_append hgap, skipSpace_word hw]
  have hd' : skipSpace (d :: s) = skipSpace s := by simp [skipSpace, hd]
  have hnext : nextToken (c :: (gap ++ (w ++ d :: s))) = some (⟨c,some w⟩,skipSpace s) := by
    rw [nextToken_cons, hs, if_neg (by simp), takeWord_append hw.2 hd, dropWord_append hw.2 hd, hd']
  exact tokens_of_some hnext

/-- The field the flag of a message is read as. -/
def flagToken (c : Char) : Token :=
  if isspace c then ⟨'i',some "s".toList⟩ else ⟨c,some "is".toList⟩

/-- The fields a message is read as; the name of its option begins with `k`. -/
def messageTokens (k : Char) (w : Text) (c : Char) : List Token :=
  [⟨'E',some "RROR:".toList⟩,⟨'o',some "ption".toList⟩,flagToken c,⟨'n',some "ot".toList⟩,
    ⟨'a',some "recognized".toList⟩,⟨k,some w⟩,⟨'f',some "lag".toList⟩]

lemma blanks_nil : Blanks [] := fun c hc => by cases hc

lemma blanks_one : Blanks [' '] := by
  intro c hc
  rw [List.mem_singleton.mp hc]
  rfl

/-- A word that begins with its identifier. -/
lemma tokens_word {c d : Char} {w : Text} (hw : IsWord w) (hd : isspace d = true) (s : Text) :
    tokens (c :: (w ++ d :: s)) = ⟨c,some w⟩ :: tokens (skipSpace s) :=
  tokens_field blanks_nil hw hd s

/-- Read from in front of it, a flag takes the next word as its value unless it is blank. -/
lemma tokens_flag {k : Char} (hk : isspace k = false) (c : Char) (s : Text) :
    tokens (skipSpace (c :: " is ".toList ++ k :: s)) = flagToken c :: tokens (k :: s) := by
  unfold flagToken
  cases hc : isspace c with
  | true =>
    have hblanks : Blanks [c,' '] := by
      intro d hd
      rcases List.mem_cons.mp hd with rfl | hd
      · exact hc
      · rw [List.mem_singleton.mp hd]
        rfl
    have hskip : skipSpace (c :: " is ".toList ++ k :: s) = 'i' :: ("s".toList ++ ' ' :: k :: s) :=
      (skipSpace_append hblanks _).trans (skipSpace_cons_of_not (by decide) _)
    rw [hskip, tokens_word (by decide) (by decide), skipSpace_cons_of_not hk, if_pos rfl]
  | false =>
    have hsplit : c :: " is ".toList ++ k :: s = c :: ([' '] ++ ("is".toList ++ ' ' :: k :: s)) := rfl
    rw [hsplit, skipSpace_cons_of_not hc, tokens_field blanks_one (by decide) (by decide),
      skipSpace_cons_of_not hk, if_neg Bool.false_ne_true]

theorem tokens_notAFlag {k : Char} {w : Text} (hk : isspace k = false) (hw : IsWord w) (c : Char)
    (s : Text) : tokens (notAFlag (k :: w) c ++ s) = messageTokens k w c ++ tokens (skipSpace s) := by
  -- the words of the message, one identifier after the other
  have hmessage : notAFlag (k :: w) c ++ s = 'E' :: ("RROR:".toList ++ ' ' :: 'o' :: ("ption".toList ++
      ' ' :: (c :: " is ".toList ++ 'n' :: ("ot".toList ++ ' ' :: 'a' :: ([' '] ++
        ("recognized".toList ++ ' ' :: k :: (w ++ ' ' :: 'f' :: ("lag".toList ++ '\n' :: s)))))))) := by
    unfold notAFlag
    simp only [List.append_assoc, List.cons_append]
    rfl
  rw [hmessage, tokens_word (by decide) (by decide), skipSpace_cons_of_not (by decide),
    tokens_word (by decide) (by decide), tokens_flag (by decide),
    tokens_word (by decide) (by decide), skipSpace_cons_of_not (by decide),
    tokens_field blanks_one (by decide) (by decide), skipSpace_cons_of_not hk,
    tokens_word hw (by decide), skipSpace_cons_of_not (by decide),
    tokens_word (by decide) (by decide)]
  rfl

namespace Pointers

/-- Everything is set. -/
def all : Pointers := ⟨true,true,true⟩

lemma step_flagToken (s : Pointers) (c : Char) :
    s.step (flagToken c) = { s with charbuff := true }.dispatch (LsofFlag.ofChar c) := by
  unfold flagToken
  cases hc : isspace c with
  | true =>
    have hnone : LsofFlag.ofChar c = none := by
      unfold LsofFlag.ofChar
      split_ifs with hf hp hG
      · exact absurd hc (by rw [hf]; decide)
      · exact absurd hc (by rw [hp]; decide)
      · exact absurd hc (by rw [hG]; decide)
      · rfl
    rw [hnone]
    rfl
  | false => rfl

/-- A message about `--proc` names a process before it names a file. -/
theorem run_proc (c : Char) : run step .init (messageTokens 'p' "roc".toList c) =
    match LsofFlag.ofChar c with
    | some .fd => .error .nullProcess
    | some .flags => .error .nullFile
    | _ => .ok all := by
  have hstart : run step .init (messageTokens 'p' "roc".toList c) =
      step ⟨false,false,true⟩ (flagToken c) >>= fun s =>
        run step s ((messageTokens 'p' "roc".toList c).drop 3) := rfl
  rw [hstart, step_flagToken]
  cases LsofFlag.ofChar c with
  | none => rfl
  | some flag => cases flag <;> rfl

/-- A message about `--file` names a file first. -/
theorem run_file (c : Char) : run step .init (messageTokens 'f' "ile".toList c) =
    match LsofFlag.ofChar c with
    | some .pid => .ok all
    | some .flags => .error .nullFile
    | _ => .error .nullProcess := by
  have hstart : run step .init (messageTokens 'f' "ile".toList c) =
      step ⟨false,false,true⟩ (flagToken c) >>= fun s =>
        run step s ((messageTokens 'f' "ile".toList c).drop 3) := rfl
  rw [hstart, step_flagToken]
  cases LsofFlag.ofChar c with
  | none => rfl
  | some flag => cases flag <;> rfl

/-- From there on nothing stops the loop but a value that is too long. -/
theorem run_all {ts : List Token} (h : ∀ t ∈ ts, ∃ w, t.value = some w ∧ w.length < bufferSize) :
    run step all ts = .ok all := by
  induction ts with
  | nil => rfl
  | cons t ts ih =>
    obtain ⟨w,hv,hw⟩ := h t List.mem_cons_self
    have ht : all.step t = .ok all := by
      rw [step, hv]
      dsimp only
      rw [if_pos hw]
      unfold dispatch
      cases t.flag with
      | none => rfl
      | some flag => cases flag <;> rfl
    rw [run_cons, ht, ok_bind]
    exact ih fun u hu => h u (List.mem_cons_of_mem _ hu)

end Pointers

/-- The fields of the message about an unknown flag of an option. -/
def fieldsOf (e : Text × Char) : List Token :=
  if e.1 = "proc".toList then messageTokens 'p' "roc".toList e.2
  else messageTokens 'f' "ile".toList e.2

theorem unknown_option {a : GetoptAnswer} {e : Text × Char} (h : e ∈ a.unknown) :
    e.1 = "proc".toList ∧ e.2 ∉ PROC_OPTS_DEFAULT ∨
      e.1 = "file".toList ∧ e.2 ∉ FILESTAT_OPTS_DEFAULT := by
  have hflags : ∀ {defaults options : Text} {c : Char}, c ∈ unknownFlags defaults options →
      c ∉ defaults := by
    intro defaults options c hc
    unfold unknownFlags at hc
    split_ifs at hc
    · cases hc
    · simpa using (List.mem_filter.mp hc).2
  obtain ⟨code,optarg⟩ := a
  cases code with
  | proc =>
    obtain ⟨c,hc,rfl⟩ := List.mem_map.mp h
    exact .inl ⟨rfl,hflags hc⟩
  | file =>
    obtain ⟨c,hc,rfl⟩ := List.mem_map.mp h
    exact .inr ⟨rfl,hflags hc⟩
  | error => cases h

theorem tokens_messages {l : List (Text × Char)}
    (h : ∀ e ∈ l, e.1 = "proc".toList ∨ e.1 = "file".toList) :
    tokens (l.flatMap fun e => notAFlag e.1 e.2) = l.flatMap fieldsOf := by
  induction l with
  | nil => rfl
  | cons e l ih =>
    have hboundary : skipSpace (l.flatMap fun e => notAFlag e.1 e.2) =
        l.flatMap fun e => notAFlag e.1 e.2 := by
      cases l with
      | nil => rfl
      | cons e l => exact skipSpace_cons_of_not (by decide) _
    have htail := ih fun e he => h e (List.mem_cons_of_mem _ he)
    obtain ⟨cmd,c⟩ := e
    have hcmd : cmd = "proc".toList ∨ cmd = "file".toList := h _ List.mem_cons_self
    rw [List.flatMap_cons, List.flatMap_cons, ← htail]
    rcases hcmd with hcmd | hcmd <;> subst hcmd
    · have hfields : fieldsOf ("proc".toList,c) = messageTokens 'p' "roc".toList c := if_pos rfl
      have htokens := tokens_notAFlag (k := 'p') (w := "roc".toList) (by decide) (by decide) c
        (l.flatMap fun e => notAFlag e.1 e.2)
      rw [hboundary] at htokens
      rw [hfields]
      exact htokens
    · have hne : "file".toList ≠ "proc".toList := by decide
      have hfields : fieldsOf ("file".toList,c) = messageTokens 'f' "ile".toList c := if_neg hne
      have htokens := tokens_notAFlag (k := 'f') (w := "ile".toList) (by decide) (by decide) c
        (l.flatMap fun e => notAFlag e.1 e.2)
      rw [hboundary] at htokens
      rw [hfields]
      exact htokens

/-- A field of a message: its value fits the buffer, and where the loop takes it for a process or
a file it is no number. -/
structure Token.Garbled (t : Token) (w : Text) : Prop where
  value : t.value = some w
  short : w.length < bufferSize
  number : t.flag ≠ none → c_str w ≠ "txt".toList ∧ atoi (c_str w) = 0

theorem garbled_of_message {e : Text × Char} {t : Token} (h : t ∈ fieldsOf e) :
    ∃ w, t.Garbled w := by
  have hflag : ∃ w, (flagToken e.2).Garbled w := by
    unfold flagToken
    split_ifs
    · exact ⟨_,rfl,by decide,fun hf => absurd rfl hf⟩
    · exact ⟨_,rfl,by decide,fun _ => by decide⟩
  have hplain : ∀ {c : Char} {w : Text}, LsofFlag.ofChar c = none → w.length < bufferSize →
      Token.Garbled ⟨c,some w⟩ w := fun hc hw => ⟨rfl,hw,fun hf => absurd hc hf⟩
  have hall : ∀ (k : Char) (w : Text), Token.Garbled ⟨k,some w⟩ w →
      t ∈ messageTokens k w e.2 → ∃ w, t.Garbled w := by
    intro k w hk ht
    simp only [messageTokens, List.mem_cons, List.not_mem_nil, or_false] at ht
    rcases ht with rfl | rfl | rfl | rfl | rfl | rfl | rfl
    · exact ⟨_,hplain (by decide) (by decide)⟩
    · exact ⟨_,hplain (by decide) (by decide)⟩
    · exact hflag
    · exact ⟨_,hplain (by decide) (by decide)⟩
    · exact ⟨_,hplain (by decide) (by decide)⟩
    · exact ⟨w,hk⟩
    · exact ⟨_,rfl,by decide,fun _ => by decide⟩
  unfold fieldsOf at h
  split_ifs at h
  · exact hall _ _ ⟨rfl,by decide,fun _ => by decide⟩ h
  · exact hall _ _ ⟨rfl,by decide,fun _ => by decide⟩ h

/-- All there is in a store is a process 0 and its file 0. -/
def ProcMap.OnlyZero (m : ProcMap) : Prop :=
  OMap.Each (fun k (p : ProcFile) => k = 0 ∧ p.ulFiles.Each fun j _ => j = 0) m

/-- Fields of messages name no other process and no other file. -/
theorem LsofLoop.iterate_onlyZero {T : UInt64} {st st' : LsofLoop} {t : Token} {w : Text}
    (hs : st.strbuff = []) (h : ProcMap.OnlyZero st.procMap) (ht : t.Garbled w)
    (hr : st.iterate T t = .ok st') : ProcMap.OnlyZero st'.procMap := by
  have hout := outcome_of_iterate hs hr
  rw [effective, ht.value, Option.some_or] at hout
  rcases outcome_cases hout with
    ⟨hf,p,v,_,hv,rfl⟩ | ⟨_,p,j,_,rfl⟩ | ⟨hf,v,hv,rfl⟩ | ⟨_,rfl⟩
  · cases hv
    have hkey : fileKey (st.numberOf w) = 0 := by
      obtain ⟨htxt,hzero⟩ := ht.number (by rw [Token.flag, hf]; simp)
      rw [numberOf, if_neg htxt, fileKey_atoi, hzero]
    exact OMap.Each.modify h fun q hq => ⟨hq.1,hq.2.insertNew fun _ => hkey⟩
  · exact OMap.Each.modify h fun q hq => ⟨hq.1,hq.2.modify fun _ hj => hj⟩
  · cases hv
    have hzero := (ht.number (by rw [Token.flag, hf]; simp)).2
    apply OMap.Each.modify (OMap.Each.insertNew h fun _ => ⟨hzero,OMap.each_empty⟩)
    intro q hq
    rwa [ProcFile.addAttribute_ulFiles]
  · exact h

/-- The loop gets through the first message when that one is about `--proc` and not about `f`. -/
theorem run_first {e : Text × Char} (h : e.1 = "proc".toList ∧ e.2 ∉ PROC_OPTS_DEFAULT ∨
      e.1 = "file".toList ∧ e.2 ∉ FILESTAT_OPTS_DEFAULT) :
    (e.1 = "proc".toList ∧ e.2 ≠ 'f' → run Pointers.step .init (fieldsOf e) = .ok .all) ∧
    (Completes (run Pointers.step .init (fieldsOf e)) → e.1 = "proc".toList ∧ e.2 ≠ 'f') := by
  obtain ⟨cmd,c⟩ := e
  unfold fieldsOf
  rcases h with ⟨hcmd,hc⟩ | ⟨hcmd,hc⟩
  · rw [if_pos hcmd, Pointers.run_proc]
    cases hflag : LsofFlag.ofChar c with
    | none =>
      have hne : c ≠ 'f' := fun he => by
        subst he
        cases hflag
      exact ⟨fun _ => rfl,fun _ => ⟨hcmd,hne⟩⟩
    | some flag =>
      unfold LsofFlag.ofChar at hflag
      split_ifs at hflag with hf hp hG
      · cases hflag
        exact ⟨fun h => absurd hf h.2,fun h => absurd h (not_completes_error _)⟩
      · cases hflag
        exact ⟨fun _ => rfl,fun _ => ⟨hcmd,hf⟩⟩
      · -- `G` is a flag of `--proc`
        have hmem : 'G' ∈ PROC_OPTS_DEFAULT := by decide
        exact absurd (hG ▸ hmem) hc
  · have hne : "file".toList ≠ "proc".toList := by decide
    have hcmd' : cmd ≠ "proc".toList := fun he => hne (hcmd.symm.trans he)
    rw [if_neg hcmd', Pointers.run_file]
    refine ⟨fun h => absurd h.1 hcmd',fun h => ?_⟩
    cases hflag : LsofFlag.ofChar c with
    | none =>
      rw [hflag] at h
      exact absurd h (not_completes_error _)
    | some flag =>
      rw [hflag] at h
      unfold LsofFlag.ofChar at hflag
      split_ifs at hflag with hf hp hG <;> cases hflag
      · exact absurd h (not_completes_error _)
      · -- `p` is a flag of `--file`
        have hmem : 'p' ∈ FILESTAT_OPTS_DEFAULT := by decide
        exact absurd (hp ▸ hmem) hc
      · exact absurd h (not_completes_error _)

/-- Where messages about the options are read, the loop goes through a null pointer if the first
is about `--file` or about the flag `f`; else it leaves a process 0 that has a file 0. -/
theorem getFilesInfo_errorLines (T : UInt64) {answers : List GetoptAnswer} {e : Text × Char}
    {l : List (Text × Char)} (hel : answers.flatMap GetoptAnswer.unknown = e :: l) :
    (Completes (getFilesInfo T (.output (errorLines answers)) ∅) ↔
      e.1 = "proc".toList ∧ e.2 ≠ 'f') ∧
    ∀ out m, getFilesInfo T (.output (errorLines answers)) ∅ = .ok (out,m) →
      m.OnlyZero ∧ ∃ p u, m.find? 0 = some p ∧ p.ulFiles.find? 0 = some u := by
  have hunknown : ∀ e' ∈ e :: l, e'.1 = "proc".toList ∧ e'.2 ∉ PROC_OPTS_DEFAULT ∨
      e'.1 = "file".toList ∧ e'.2 ∉ FILESTAT_OPTS_DEFAULT := by
    intro e' he
    rw [← hel] at he
    obtain ⟨a,_,ha⟩ := List.mem_flatMap.mp he
    exact unknown_option ha
  have htokens : tokens (errorLines answers) = fieldsOf e ++ l.flatMap fieldsOf := by
    unfold errorLines
    rw [hel]
    exact tokens_messages fun e' he => (hunknown e' he).imp And.left And.left
  have hgarbled : ∀ t ∈ tokens (errorLines answers), ∃ w, t.Garbled w := by
    intro t ht
    rw [htokens] at ht
    rcases List.mem_append.mp ht with ht | ht
    · exact garbled_of_message ht
    · obtain ⟨e',_,ht⟩ := List.mem_flatMap.mp ht
      exact garbled_of_message ht
  have hrest : run Pointers.step .all (l.flatMap fieldsOf) = .ok .all := by
    apply Pointers.run_all
    intro t ht
    obtain ⟨w,hw⟩ := hgarbled t (by rw [htokens]; exact List.mem_append_right _ ht)
    exact ⟨w,hw.value,hw.short⟩
  obtain ⟨hgood,hbad⟩ := run_first (hunknown e List.mem_cons_self)
  have hcompletes : Completes (getFilesInfo T (.output (errorLines answers)) ∅) ↔
      e.1 = "proc".toList ∧ e.2 ≠ 'f' := by
    apply completes_map.trans
    rw [completes_bufferedRead, htokens, run_append]
    constructor
    · intro h
      obtain ⟨s,hs,_⟩ := completes_bind.mp h
      exact hbad ⟨s,hs⟩
    · intro h
      rw [hgood h, ok_bind, hrest]
      exact completes_ok _
  refine ⟨hcompletes,fun out m hm => ?_⟩
  obtain ⟨m',hread,he⟩ := map_eq_ok.mp hm
  cases he
  obtain ⟨st,hst,rfl⟩ := map_eq_ok.mp hread
  rw [bufferedReadState_eq_run] at hst
  have hst' : st.Consistent ∧ ProcMap.OnlyZero st.procMap := by
    apply run_invariant_mem (I := fun st : LsofLoop => st.Consistent ∧ ProcMap.OnlyZero st.procMap)
      (fun u t ht v hu hv => ?_) ⟨LsofLoop.init_consistent T,OMap.each_empty⟩ hst
    obtain ⟨w,hw⟩ := hgarbled t ht
    exact ⟨LsofLoop.iterate_consistent hu.1 hv,
      LsofLoop.iterate_onlyZero hu.1.strbuff hu.2 hw hv⟩
  have hpointers : st.pointers = .all := by
    have hs : (LsofLoop.init T ∅).strbuff = [] := rfl
    have hrun := LsofLoop.pointers_run (T := T) hs (tokens (errorLines answers))
    rw [hst, htokens, run_append] at hrun
    have hinit : (LsofLoop.init T ∅).pointers = .init := rfl
    rw [hinit, hgood (hcompletes.mp ⟨_,hm⟩), ok_bind, hrest] at hrun
    exact Except.ok.inj hrun
  have hulf : st.ulf.isSome = true := congrArg Pointers.ulf hpointers
  obtain ⟨⟨k,j⟩,hkj⟩ := Option.isSome_iff_exists.mp hulf
  obtain ⟨p,u,hp,hu⟩ := hst'.1.ulf k j hkj
  obtain ⟨hk,hfiles⟩ := hst'.2 k p hp
  subst hk
  have hj := hfiles j u hu
  subst hj
  exact ⟨hst'.2,p,u,hp,hu⟩

lemma notAFlag_ends (cmd : Text) (c : Char) : ∃ t, notAFlag cmd c = t ++ ['\n'] := by
  have hend : " flag\n".toList = " flag".toList ++ ['\n'] := rfl
  unfold notAFlag
  rw [hend, ← List.append_assoc]
  exact ⟨_,rfl⟩

/-- No message stays in the buffer of a terminal. -/
theorem rtakeWhile_errorLines (answers : List GetoptAnswer) :
    (errorLines answers).rtakeWhile (· ≠ '\n') = [] := by
  unfold errorLines
  rcases List.eq_nil_or_concat' (answers.flatMap GetoptAnswer.unknown) with h | ⟨l,e,h⟩
  · rw [h]
    rfl
  · obtain ⟨t,ht⟩ := notAFlag_ends e.1 e.2
    rw [h, List.flatMap_append, List.flatMap_singleton, ht, ← List.append_assoc]
    exact List.rtakeWhile_concat_neg _ _ _ (by simp)

theorem Buffering.left_fits {size : ℕ} {t : Text} (h : t.length ≤ size) :
    (full size).left t = t := by
  have hzero : (t.length - 1) / size * size = 0 := by
    rcases Nat.eq_zero_or_pos size with rfl | hpos
    · exact Nat.mul_zero _
    · rw [Nat.div_eq_of_lt (by omega), Nat.zero_mul]
  rw [left, hzero, List.drop_zero]

theorem ProcMap.OnlyZero.gained {env : Surroundings} {diggers : List DataDigger} {m m' : ProcMap}
    (h : m.OnlyZero) (hg : Gained env diggers m m') : m'.OnlyZero := by
  intro k q hq
  obtain ⟨p,hp,hpq⟩ := hg k q hq
  refine ⟨(h k p hp).1,fun j v hv => ?_⟩
  obtain ⟨u,hu,_⟩ := hpq.files j v hv
  exact (h k p hp).2 j u hu

section
variable {env : Surroundings} {answers : List GetoptAnswer}

/-- Of an empty listing nothing is reported. -/
theorem main_empty {n : ℕ} (hn : answers.length < n) (hlsof : env.lsof = .output []) :
    main true env n answers = some (.ok (errorLines answers)) := by
  by_cases hstop : LastBad answers ∨ lastProc answers = NO ∧ lastFile answers = NO
  · obtain ⟨r,hr,_,_,hstopped⟩ := main_errorLines hn env
    rw [hr, hstopped hstop]
  · obtain ⟨hgood,hno⟩ := not_or.mp hstop
    have hok := (parsed_flagsOkay answers).mpr hgood
    rw [← parsed_proc_ops, ← parsed_file_ops] at hno
    have hdig : Built.init.dig env (.lsof,LSOF_OPTS_DEFAULT) =
        .ok ⟨[],createAttribMap LSOFReader.ids ∅,∅⟩ := by
      rw [Built.dig, hlsof]
      rfl
    have hproc : ∀ ops flags, ∃ flags', Built.digUnless env .proc ops ⟨[],flags,∅⟩ =
        .ok ⟨[],flags',∅⟩ := by
      intro ops flags
      unfold Built.digUnless
      split_ifs
      · exact ⟨_,rfl⟩
      · exact ⟨_,rfl⟩
    have hfile : ∀ ops flags, ∃ flags', Built.digUnless env .filestat ops ⟨[],flags,∅⟩ =
        .ok ⟨[],flags',∅⟩ := by
      intro ops flags
      unfold Built.digUnless
      split_ifs
      · exact ⟨_,rfl⟩
      · exact ⟨_,rfl⟩
    obtain ⟨flags₁,h₁⟩ := hproc (parsed answers).proc_ops (createAttribMap LSOFReader.ids ∅)
    obtain ⟨flags₂,h₂⟩ := hfile (parsed answers).file_ops flags₁
    rw [main_eq hn, runReaders_eq hok hno, hdig, ok_bind, h₁, ok_bind, h₂, parsed_printed]
    simp [flattenMap, printFiles]

/-- When `lsof` cannot be run, nothing is reported but what was to be said about the options, if
that has left the buffer or there is none; else the first message stops the program unless it is
about `--proc` and not about the flag `f`, and a process 0 with a file 0 is all it looks at. -/
theorem main_noExec {mode : Buffering}
    (hlsof : env.lsof = Launch.noExec.answer mode (errorLines answers)) {n : ℕ}
    (hn : answers.length < n) : ∃ r, main true env n answers = some r ∧
      (mode = .line ∨ (∀ a ∈ answers, ¬ a.Bad) → r = .ok (errorLines answers)) ∧
      ∀ size e l, mode = .full size → (errorLines answers).length ≤ size →
        answers.flatMap GetoptAnswer.unknown = e :: l → ¬ LastBad answers →
        ¬ (lastProc answers = NO ∧ lastFile answers = NO) →
        (Completes r → e.1 = "proc".toList ∧ e.2 ≠ 'f') ∧
        ∀ b queue, (parsed answers).runReaders env = .ok (b,queue) →
          ∃ p u, b.procMap.entries = [(0,p)] ∧ p.ulFiles.entries = [(0,u)] := by
  obtain ⟨r,hr,hiff⟩ := main_completes hn env
  refine ⟨r,hr,fun h => ?_,fun size e l hmode hsize hel hgood hno => ?_⟩
  · have hempty : mode.left (errorLines answers) = [] := by
      rcases h with rfl | hgood
      · exact rtakeWhile_errorLines answers
      · rw [errorLines_eq_nil.mpr hgood]
        cases mode with
        | line => rfl
        | full size => exact List.drop_nil
    have hrun := main_empty hn (hlsof.trans (congrArg LsofAnswer.output hempty))
    exact Option.some.inj (hr.symm.trans hrun)
  · subst hmode
    have hanswer : env.lsof = .output (errorLines answers) :=
      hlsof.trans (congrArg LsofAnswer.output (Buffering.left_fits hsize))
    have hread : (parsed answers).readersRun = (.lsof,LSOF_OPTS_DEFAULT) :: (parsed answers).after := by
      apply (parsed answers).readersRun_cases.resolve_left
      rw [readersRun_eq, if_pos ((parsed_flagsOkay answers).mpr hgood), requestedReaders, if_neg hno]
      exact List.cons_ne_nil _ _
    obtain ⟨hcompletes,hstore⟩ := getFilesInfo_errorLines env.ULF_TXT_FD hel
    rw [← hanswer] at hcompletes hstore
    have hstages : ∀ b queue, (parsed answers).runReaders env = .ok (b,queue) → ∃ out m b₀,
        getFilesInfo env.ULF_TXT_FD env.lsof ∅ = .ok (out,m) ∧ b₀.procMap = m ∧
          run (Built.dig env) b₀ (parsed answers).after = .ok b := by
      intro b queue h
      obtain ⟨b',hb,he⟩ := bind_eq_ok.mp h
      cases he
      rw [hread, build, run_cons] at hb
      obtain ⟨b₀,h₀,hrun⟩ := bind_eq_ok.mp hb
      obtain ⟨⟨out,m⟩,hm,he⟩ := bind_eq_ok.mp h₀
      cases he
      exact ⟨out,m,_,hm,rfl,hrun⟩
    refine ⟨fun hr => ?_,fun b queue h => ?_⟩
    · obtain ⟨⟨b,queue⟩,h⟩ := hiff.mp hr
      obtain ⟨out,m,b₀,hm,_,_⟩ := hstages b queue h
      exact hcompletes.mp ⟨_,hm⟩
    · obtain ⟨out,m,b₀,hm,rfl,hrun⟩ := hstages b queue h
      obtain ⟨honly,p,u,hp,hu⟩ := hstore out _ hm
      have hfiled : b₀.procMap.Filed := getFilesInfo_filed OMap.each_empty hm
      have honly' := honly.gained (run_dig_gained MainOptions.after_ne_lsof hfiled hrun)
      obtain ⟨q,hq,hpq⟩ := (run_dig_grows env _ hrun).store 0 p hp
      obtain ⟨v,hv,_⟩ := hpq.files 0 u hu
      exact ⟨q,v,OMap.entries_eq_singleton (fun k q hq => (honly' k q hq).1) hq,
        OMap.entries_eq_singleton (honly' 0 q hq).2 hv⟩

end

/-- A flag that is taken back, and one message that is read. -/
def takenBack : List GetoptAnswer :=
  [⟨.proc,"?".toList⟩,⟨.proc,"n".toList⟩,⟨.file,"n".toList⟩]

def withoutLsof : Surroundings :=
  ⟨some 1024,Launch.noExec.answer (.full 4096) (errorLines takenBack),answering,default⟩

theorem main_noExec_takenBack : ∃ b queue p u,
    (parsed takenBack).runReaders withoutLsof = .ok (b,queue) ∧
      b.procMap.entries = [(0,p)] ∧ p.ulFiles.entries = [(0,u)] := by
  have hrun : (fun r => r.2.length) <$> (parsed takenBack).runReaders withoutLsof = .ok 2 := by
    decide +kernel
  obtain ⟨⟨b,queue⟩,h,_⟩ := map_eq_ok.mp hrun
  have hlsof : withoutLsof.lsof = Launch.noExec.answer (.full 4096) (errorLines takenBack) := rfl
  obtain ⟨r,_,_,hread⟩ := main_noExec hlsof (Nat.lt_succ_self _)
  have hgood : ¬ LastBad takenBack := (parsed_flagsOkay takenBack).mp (by decide)
  obtain ⟨_,hstore⟩ := hread 4096 _ [] rfl (by decide +kernel) rfl hgood (by decide)
  obtain ⟨p,u,hp,hu⟩ := hstore b queue h
  exact ⟨b,queue,p,u,h,hp,hu⟩

end Cphf
