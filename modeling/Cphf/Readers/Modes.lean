import Cphf.Readers.FileStat

/-! What the texts of `readMode` and `readPerms` tell of a mode. `readPerms` tests `S_ISGID` for
the `s` of the owner, so it shows the set-group-id bit there and the set-user-id bit nowhere. -/
namespace Cphf
open CLib

def S_IFMT : UInt32 := 0o170000

def S_ISUID : UInt32 := 0o4000

def S_ISGID : UInt32 := 0o2000

def S_ISVTX : UInt32 := 0o1000

def S_IXUSR : UInt32 := 0o100

def S_IXGRP : UInt32 := 0o010

def S_IXOTH : UInt32 := 0o001

/-- The bits that let a user, a group and the others read and write. -/
def readWriteBits : List UInt32 := [0o400,0o200,0o040,0o020,0o004,0o002]

def fileType (mode : UInt32) : UInt32 := mode &&& S_IFMT

/-- The seven types that `readMode` has a name for. -/
def namedTypes : List UInt32 :=
  [0o100000,0o040000,0o020000,0o060000,0o010000,0o120000,0o140000]

/-- The execute bits of two modes agree, unless a special bit takes their place in both. -/
def SameUnder (special bit m m' : UInt32) : Prop :=
  hasBit m special = true ∧ hasBit m' special = true ∨ hasBit m bit = hasBit m' bit

/-- Two modes have the same type, permissions and special bits, where an execute bit may be
covered by the special bit of its position. -/
structure ModesAgree (m m' : UInt32) : Prop where
  type : fileType m = fileType m'
  readWrite : ∀ bit ∈ readWriteBits, hasBit m bit = hasBit m' bit
  special : ∀ bit ∈ [S_ISUID,S_ISGID,S_ISVTX], hasBit m bit = hasBit m' bit
  user : SameUnder S_ISUID S_IXUSR m m'
  group : SameUnder S_ISGID S_IXGRP m m'
  others : SameUnder S_ISVTX S_IXOTH m m'

/-- The three characters of the group. -/
def groupTriple (perms : Text) : Text := (perms.drop 4).take 3

/-- The two texts determine both modes, and a set-group-id bit stands with the group. -/
structure ModesTold (m m' : UInt32) : Prop where
  agree : readMode m = readMode m' → readPerms m = readPerms m' → ModesAgree m m'
  group : hasBit m S_ISGID → 's' ∈ groupTriple (readPerms m)
  group' : hasBit m' S_ISGID → 's' ∈ groupTriple (readPerms m')

/-- Two modes without a set-group-id bit differ in nothing but their set-user-id bit, or in the
execute bit of the others under the sticky bit. -/
structure SeenAlike (m m' : UInt32) : Prop where
  type : fileType m = fileType m'
  readWrite : ∀ bit ∈ readWriteBits, hasBit m bit = hasBit m' bit
  execute : ∀ bit ∈ [S_IXUSR,S_IXGRP], hasBit m bit = hasBit m' bit
  sticky : hasBit m S_ISVTX = hasBit m' S_ISVTX
  others : SameUnder S_ISVTX S_IXOTH m m'

/-- No set-group-id bit, and the same set-user-id bit or another difference. -/
structure ModesPlain (m m' : UInt32) : Prop where
  sgid : hasBit m S_ISGID = false
  sgid' : hasBit m' S_ISGID = false
  suid : SeenAlike m m' → hasBit m S_ISUID = hasBit m' S_ISUID

/-- The texts of `readMode` tell its types apart. -/
theorem readMode_inj {m m' : UInt32} (h : fileType m ∈ namedTypes)
    (h' : fileType m' ∈ namedTypes) : readMode m = readMode m' ↔ fileType m = fileType m' := by
  have htype : ∀ m, readMode m = readMode (fileType m) := by
    intro m
    have hm : fileType m &&& 0o170000 = m &&& 0o170000 := by
      rw [fileType, S_IFMT, UInt32.and_assoc, UInt32.and_self]
    rw [readMode, readMode, hm]
  have htexts : namedTypes.map readMode = ["Regular File".toList,"Directory".toList,
      "Character Device".toList,"Block Device".toList,"FIFO (named pipe)".toList,
      "Symbolic Link".toList,"Socket".toList] := by decide
  have hnodup : (namedTypes.map readMode).Nodup := by
    rw [htexts]
    decide
  rw [htype m, htype m']
  constructor
  · exact List.inj_on_of_nodup_map hnodup h h'
  · intro he
    rw [he]

section
variable {p q p' q' : Bool} {a b c : Char}

lemma ite_char_inj (h : a ≠ b) : ((if p then a else b) = if p' then a else b) ↔ p = p' := by
  cases p <;> cases p' <;> simp [h, h.symm]

/-- A character that stands for two bits, the first over the second. -/
lemma ite_ite_char_inj (hab : a ≠ b) (hac : a ≠ c) (hbc : b ≠ c) :
    ((if p then a else if q then b else c) = if p' then a else if q' then b else c) ↔
      p = p' ∧ ((p = true ∧ p' = true) ∨ q = q') := by
  cases p <;> cases p' <;> cases q <;> cases q' <;>
    simp [hab, hac, hbc, hab.symm, hac.symm, hbc.symm]

end

/-- The texts of `readPerms` are the same for modes that agree in being a directory and in the
bits that are shown; the owner's execute bit hides under the set-group-id bit. -/
theorem readPerms_inj {m m' : UInt32} : readPerms m = readPerms m' ↔
    (fileType m = 0o040000 ↔ fileType m' = 0o040000) ∧
    (∀ bit ∈ readWriteBits, hasBit m bit = hasBit m' bit) ∧
    (hasBit m S_ISGID = hasBit m' S_ISGID ∧ SameUnder S_ISGID S_IXUSR m m') ∧
    hasBit m S_IXGRP = hasBit m' S_IXGRP ∧
    hasBit m S_ISVTX = hasBit m' S_ISVTX ∧ SameUnder S_ISVTX S_IXOTH m m' := by
  have hdir : ((if m &&& 0o170000 = 0o040000 then 'd' else '-') =
      if m' &&& 0o170000 = 0o040000 then 'd' else '-') ↔
      (fileType m = 0o040000 ↔ fileType m' = 0o040000) := by
    rw [fileType, fileType, S_IFMT]
    split_ifs with h1 h2 h2 <;> simp [h1, h2]
  have hd : ('r' : Char) ≠ '-' ∧ 'w' ≠ '-' ∧ 'x' ≠ '-' := by decide
  have hs : ('s' : Char) ≠ 'x' ∧ 's' ≠ '-' ∧ 't' ≠ 'x' ∧ 't' ≠ '-' := by decide
  simp only [readPerms, List.cons.injEq, and_true, hdir, ite_char_inj hd.1, ite_char_inj hd.2.1,
    ite_char_inj hd.2.2, ite_ite_char_inj hs.1 hs.2.1 hd.2.2,
    ite_ite_char_inj hs.2.2.1 hs.2.2.2 hd.2.2, readWriteBits, List.forall_mem_cons,
    List.not_mem_nil, false_implies, implies_true, SameUnder, S_ISGID, S_ISVTX, S_IXUSR, S_IXGRP, S_IXOTH]
  constructor
  · intro ⟨hd,hr,hw,hx,hgr,hgw,hgx,hor,how,ht⟩
    exact ⟨hd,⟨hr,hw,hgr,hgw,hor,how⟩,hx,hgx,ht⟩
  · intro ⟨hd,⟨hr,hw,hgr,hgw,hor,how⟩,hx,hgx,ht⟩
    exact ⟨hd,hr,hw,hx,hgr,hgw,hgx,hor,how,ht⟩

/-- The group never has an `s`. -/
theorem not_mem_groupTriple (m : UInt32) : 's' ∉ groupTriple (readPerms m) := by
  have h : ∀ p : Bool, ∀ c : Char, c ≠ 's' → 's' ≠ if p then c else '-' := by
    intro p c hc
    cases p with
    | false => exact (by decide : 's' ≠ '-')
    | true => exact hc.symm
  have htriple : groupTriple (readPerms m) =
      [if hasBit m 0o040 then 'r' else '-',if hasBit m 0o020 then 'w' else '-',
        if hasBit m 0o010 then 'x' else '-'] := rfl
  rw [htriple]
  simp only [List.mem_cons, List.not_mem_nil, or_false, not_or]
  exact ⟨h _ _ (by decide),h _ _ (by decide),h _ _ (by decide)⟩

section
variable {m m' : UInt32}

lemma sameUnder_of_unset {special bit : UInt32} (hm : hasBit m special = false)
    (h : SameUnder special bit m m') : hasBit m bit = hasBit m' bit := by
  cases h with
  | inl h =>
    rw [hm] at h
    cases h.1
  | inr h => exact h

/-- Without a set-group-id bit the texts are the same for modes that are seen alike. -/
theorem seenAlike_iff (h : fileType m ∈ namedTypes) (h' : fileType m' ∈ namedTypes)
    (hg : hasBit m S_ISGID = false) (hg' : hasBit m' S_ISGID = false) :
    readMode m = readMode m' ∧ readPerms m = readPerms m' ↔ SeenAlike m m' := by
  rw [readMode_inj h h', readPerms_inj]
  constructor
  · intro ⟨htype,_,hrw,⟨_,hx⟩,hgx,ht,ho⟩
    refine ⟨htype,hrw,?_,ht,ho⟩
    simp only [List.forall_mem_cons, List.not_mem_nil, false_implies, implies_true, and_true]
    exact ⟨sameUnder_of_unset hg hx,hgx⟩
  · intro ⟨htype,hrw,hx,ht,ho⟩
    exact ⟨htype,by rw [htype],hrw,⟨hg.trans hg'.symm,.inr (hx _ (by simp))⟩,hx _ (by simp),ht,ho⟩

/-- The two texts tell two modes apart, and show the set-group-id bit where it belongs, exactly
when neither has that bit and they do not differ in the set-user-id bit alone. -/
theorem modesTold_iff (h : fileType m ∈ namedTypes) (h' : fileType m' ∈ namedTypes) :
    ModesTold m m' ↔ ModesPlain m m' := by
  constructor
  · intro ⟨hagree,hgroup,hgroup'⟩
    have hg : hasBit m S_ISGID = false := Bool.eq_false_iff.mpr fun hg =>
      not_mem_groupTriple m (hgroup hg)
    have hg' : hasBit m' S_ISGID = false := Bool.eq_false_iff.mpr fun hg =>
      not_mem_groupTriple m' (hgroup' hg)
    refine ⟨hg,hg',fun hseen => ?_⟩
    obtain ⟨hmode,hperms⟩ := (seenAlike_iff h h' hg hg').mpr hseen
    exact (hagree hmode hperms).special S_ISUID (by simp)
  · intro ⟨hg,hg',hsuid⟩
    constructor
    · intro hmode hperms
      have hseen := (seenAlike_iff h h' hg hg').mp ⟨hmode,hperms⟩
      refine ⟨hseen.type,hseen.readWrite,?_,.inr ?_,.inr ?_,hseen.others⟩
      · simp only [List.forall_mem_cons, List.not_mem_nil, false_implies, implies_true, and_true]
        exact ⟨hsuid hseen,hg.trans hg'.symm,hseen.sticky⟩
      · exact hseen.execute _ (by simp)
      · exact hseen.execute _ (by simp)
    · exact fun hs => absurd (hg.symm.trans hs) (by decide)
    · exact fun hs => absurd (hg'.symm.trans hs) (by decide)

end

/-- An executable file and one that is not. -/
theorem modesTold_plain : ModesTold 0o100755 0o100644 :=
  (modesTold_iff (by decide) (by decide)).mpr ⟨by decide,by decide,fun _ => by decide⟩

/-- A program that runs as its owner is shown like any other. -/
theorem not_modesTold_setuid : ¬ ModesTold 0o104755 0o100755 := by
  intro h
  have hagree := h.agree (by decide) (by decide)
  exact absurd (hagree.special S_ISUID (by simp)) (by decide)

end Cphf
