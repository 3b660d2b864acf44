import Cphf.Readers.Base

/-! `/proc/tty/drivers`: how `buildDeviceMap` takes its lines apart, and where a line that is cut
off leaves it. -/
namespace Cphf
open CLib

/-- The extractions after the name of a device. -/
def readNumbers (serialDevice fsin : Text) : Option (Driver × Text) := do
  let (major,fsin) ← extractUnsigned fsin
  let (min,fsin) ← extractUnsigned fsin
  let (rangeCheck,fsin) ← extractChar fsin
  let (max,fsin) ← if rangeCheck = '-' then extractUnsigned fsin else some (min,fsin)
  let (_,fsin) ← extractWord fsin
  some (⟨major,⟨min,max⟩,serialDevice⟩,fsin)

theorem readDriver_eq (fsin : Text) : readDriver fsin =
    match extractWord fsin with
    | none => .ok none
    | some (_,fsin) =>
      match extractWord fsin with
      | none => .ok none
      | some (serialDevice,fsin) =>
        if serialDevice.length < 5 then .error .outOfRange
        else .ok (readNumbers (serialDevice.drop 5) fsin) := rfl

/-- What a round that presents a driver has read. -/
structure DriverRead (fsin rest : Text) (d : Driver) : Prop where
  name : ∃ w, IsWord w ∧ (∀ c ∈ w, c ∈ fsin) ∧ d.serialDevice = w.drop 5
  suffix : rest <:+ fsin
  length_lt : rest.length < fsin.length

theorem readNumbers_eq_some {serialDevice fsin rest : Text} {d : Driver}
    (h : readNumbers serialDevice fsin = some (d,rest)) :
    d.serialDevice = serialDevice ∧ rest <:+ fsin := by
  unfold readNumbers at h
  simp only [Option.bind_eq_bind, Option.bind_eq_some_iff, Prod.exists] at h
  obtain ⟨major,s₁,h₁,min,s₂,h₂,c,s₃,h₃,h⟩ := h
  have hlast : ∃ s₄ w, s₄ <:+ s₃ ∧ extractWord s₄ = some (w,rest) ∧ d.serialDevice = serialDevice := by
    split at h
    · simp only [Option.bind_eq_some_iff, Prod.exists, Option.some.injEq, Prod.mk.injEq] at h
      obtain ⟨max,s₄,h₄,w,s₅,h₅,rfl,rfl⟩ := h
      exact ⟨s₄,w,extractUnsigned_suffix h₄,h₅,rfl⟩
    · simp only [Option.bind_eq_some_iff, Prod.exists, Option.some.injEq, Prod.mk.injEq] at h
      obtain ⟨_,_,⟨_,rfl⟩,w,s₅,h₅,rfl,rfl⟩ := h
      exact ⟨s₃,w,List.suffix_rfl,h₅,rfl⟩
  obtain ⟨s₄,w,h₄,h₅,hd⟩ := hlast
  exact ⟨hd,(extractWord_suffix h₅).2.2.1.trans (h₄.trans ((extractChar_suffix h₃).trans
    ((extractUnsigned_suffix h₂).trans (extractUnsigned_suffix h₁))))⟩

theorem readDriver_eq_ok {fsin rest : Text} {d : Driver}
    (h : readDriver fsin = .ok (some (d,rest))) : DriverRead fsin rest d := by
  rw [readDriver_eq] at h
  split at h
  · cases h
  · rename_i w s hw
    split at h
    · cases h
    · rename_i serialDevice s' hs
      split at h
      · cases h
      · obtain ⟨hd,hrest⟩ := readNumbers_eq_some (Except.ok.inj h)
        obtain ⟨_,_,hsuffix,hlt⟩ := extractWord_suffix hw
        obtain ⟨hword,hsub,hsuffix',hlt'⟩ := extractWord_suffix hs
        have hle := hrest.length_le
        exact ⟨⟨serialDevice,hword,fun c hc => hsuffix.subset (hsub c hc),hd⟩,
          hrest.trans (hsuffix'.trans hsuffix),by omega⟩

end Cphf
