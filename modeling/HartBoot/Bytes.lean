/-!
Contract: byte strings and the arithmetic of regions inside them.

Owns:
- `Bytes`, the one representation of file contents;
- `Bytes.slice?`, the region of a file between two offsets;
- `paddingFor`, the number of bytes that bring a size up to a multiple.

Does not own: the meaning of any byte.
-/

namespace HartBoot

/-- The contents of a file, or a part of them. -/
abbrev Bytes := List UInt8

/-- The number of bytes needed to bring `size` up to a multiple of `unit`. -/
def paddingFor (size unit : Nat) : Nat :=
  (unit - size % unit) % unit

/-- The least multiple of `unit` that is not below `size`. -/
def roundUp (size unit : Nat) : Nat :=
  size + paddingFor size unit

namespace Bytes

/-- The `size` bytes that start at offset `start`, if all of them exist. -/
def slice? (bytes : Bytes) (start size : Nat) : Option Bytes :=
  if start + size ≤ bytes.length then
    some ((bytes.drop start).take size)
  else
    none

/-- `count` zero bytes. -/
def zeros (count : Nat) : Bytes :=
  List.replicate count 0

/-- The bytes followed by the zeros that bring their number up to a multiple of `unit`. -/
def padTo (bytes : Bytes) (unit : Nat) : Bytes :=
  bytes ++ zeros (paddingFor bytes.length unit)

/-- A slice has the length that was asked for. -/
theorem length_of_slice?
    {bytes part : Bytes}
    {start size : Nat}
    (found : bytes.slice? start size = some part) :
    part.length = size := by
  unfold slice? at found
  split at found
  · next inside =>
    obtain rfl := Option.some.inj found
    simp only [List.length_take, List.length_drop]
    omega
  · contradiction

@[simp] theorem length_zeros (count : Nat) : (zeros count).length = count := by
  simp [zeros]

@[simp] theorem length_padTo (bytes : Bytes) (unit : Nat) :
    (bytes.padTo unit).length = roundUp bytes.length unit := by
  simp [padTo, roundUp]

/-- A part of some bytes is the slice that starts behind what is in front of it. -/
theorem slice?_append (front part rest : Bytes) :
    slice? (front ++ (part ++ rest)) front.length part.length = some part := by
  have inside : front.length + part.length ≤ (front ++ (part ++ rest)).length := by
    simp only [List.length_append]
    omega
  rw [slice?, if_pos inside, List.drop_left, List.take_left]

end Bytes

/-- Rounding up by zero bytes or more reaches a multiple. -/
theorem roundUp_mod (size unit : Nat) (positive : 0 < unit) :
    roundUp size unit % unit = 0 := by
  have remainderLt := Nat.mod_lt size positive
  have split := Nat.div_add_mod size unit
  unfold roundUp paddingFor
  by_cases exact : size % unit = 0
  · simp [exact]
  · have padding : (unit - size % unit) % unit = unit - size % unit :=
      Nat.mod_eq_of_lt (by omega)
    rw [padding]
    have total : size + (unit - size % unit) = unit * (size / unit + 1) := by
      rw [Nat.mul_add]
      omega
    rw [total]
    exact Nat.mul_mod_right unit _

/-- Rounding up adds less than one unit. -/
theorem paddingFor_lt (size unit : Nat) (positive : 0 < unit) :
    paddingFor size unit < unit :=
  Nat.mod_lt _ positive

end HartBoot
