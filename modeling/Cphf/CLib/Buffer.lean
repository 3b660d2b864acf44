import Cphf.CLib.Text

/-! A heap block of characters. A cell that was never written has no value; writing or
reading past the end of the block is an error. -/
namespace CLib

/-- What goes wrong in a block. -/
inductive BlockFault
  | pastEnd
  | unwritten
  deriving DecidableEq

abbrev Block := List (Option Char)

namespace Block

/-- `malloc`. -/
def alloc (size : ℕ) : Block := List.replicate size none

/-- `realloc` to a size: the old cells are kept, the new ones are unwritten. -/
def grow (b : Block) (size : ℕ) : Block := (b ++ List.replicate (size - b.length) none).take size

/-- Copy characters to the front of the block. -/
def write (b : Block) (s : Text) : Except BlockFault Block :=
  if s.length ≤ b.length then .ok (s.map some ++ b.drop s.length) else .error .pastEnd

def put (b : Block) (i : ℕ) (c : Char) : Except BlockFault Block :=
  if i < b.length then .ok (b.set i (some c)) else .error .pastEnd

/-- The C string at the front of the block. -/
def string : Block → Except BlockFault Text
  | [] => .error .pastEnd
  | none :: _ => .error .unwritten
  | some c :: b => if c = '\x00' then .ok [] else (c :: ·) <$> string b

@[simp] theorem length_alloc (n : ℕ) : (alloc n).length = n := by simp [alloc]

theorem length_grow {b : Block} {n : ℕ} (h : b.length ≤ n) : (b.grow n).length = n := by
  simp [grow]
  omega

theorem write_ok {b : Block} {s : Text} (h : s.length ≤ b.length) :
    b.write s = .ok (s.map some ++ b.drop s.length) := if_pos h

theorem put_ok {b : Block} {i : ℕ} (h : i < b.length) (c : Char) :
    b.put i c = .ok (b.set i (some c)) := if_pos h

/-- A terminated string in a block is read up to its first NUL. -/
theorem string_terminated (s : Text) (b : Block) :
    string (s.map some ++ some '\x00' :: b) = .ok (c_str s) := by
  induction s with
  | nil => rfl
  | cons c s ih =>
    rw [List.map_cons, List.cons_append, string, ih]
    by_cases hc : c = '\x00'
    · simp [hc, c_str]
    · simp [hc, c_str, Functor.map, Except.map]

/-- Reading does not go past the terminator. -/
theorem string_of_take {s : Text} {b : Block} (h : b.take (s.length+1) = (s ++ ['\x00']).map some) :
    b.string = .ok (c_str s) := by
  rw [← List.take_append_drop (s.length+1) b, h]
  simpa using string_terminated s (b.drop (s.length+1))

end Block
end CLib
