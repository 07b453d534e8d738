import HartBoot.Crc32

/-!
Contract: what the checksum tells apart.

Owns:
- `shiftBit_injective` and `addByte_injective`, which say that no step of the register forgets
  anything about the register before it;
- `checksum_ne_of_byte_ne`, which follows by induction over the bytes behind: two byte strings that
  differ in one byte have different checksums.

Does not own: which bytes are summed.
-/

namespace HartBoot.Crc32

/-! ## One bit -/

theorem toNat_half (register : UInt32) : (register >>> 1).toNat = register.toNat / 2 := by
  rw [UInt32.toNat_shiftRight]
  exact Nat.shiftRight_eq_div_pow _ 1

theorem odd_iff (register : UInt32) : register &&& 1 = 1 ↔ register.toNat % 2 = 1 := by
  rw [← UInt32.toNat_inj, UInt32.toNat_and]
  exact iff_of_eq (congrArg (· = 1) (Nat.and_one_is_mod _))

/-- A register is its half and the bit that halving loses. -/
theorem eq_of_half_eq
    {left right : UInt32}
    (halves : left >>> 1 = right >>> 1)
    (lowBits : left &&& 1 = 1 ↔ right &&& 1 = 1) :
    left = right := by
  have quotients := congrArg UInt32.toNat halves
  rw [toNat_half, toNat_half] at quotients
  rw [odd_iff, odd_iff] at lowBits
  apply UInt32.toNat_inj.mp
  omega

/-- Half of a register does not have the highest bit, which the polynomial has. -/
theorem half_xor_half_ne_polynomial (left right : UInt32) :
    (left >>> 1) ^^^ (right >>> 1) ≠ 0xEDB88320 := by
  have bounded : ∀ register : UInt32, (register >>> 1).toNat < 2 ^ 31 := by
    intro register
    have small := register.toNat_lt
    rw [toNat_half]
    omega
  intro same
  have below := Nat.xor_lt_two_pow (bounded left) (bounded right)
  rw [← UInt32.toNat_xor, same] at below
  exact absurd below (by decide)

/-- No two registers become the same when a bit is shifted out. -/
theorem shiftBit_injective {left right : UInt32} (same : shiftBit left = shiftBit right) :
    left = right := by
  unfold shiftBit at same
  -- The highest bit of the result tells whether the polynomial has been added, so both sides have
  -- taken the same branch.
  by_cases leftOdd : left &&& 1 = 1 <;> by_cases rightOdd : right &&& 1 = 1
  · rw [if_pos leftOdd, if_pos rightOdd, UInt32.xor_left_inj] at same
    exact eq_of_half_eq same (iff_of_true leftOdd rightOdd)
  · rw [if_pos leftOdd, if_neg rightOdd] at same
    refine absurd ?_ (half_xor_half_ne_polynomial left right)
    rw [← same, ← UInt32.xor_assoc, UInt32.xor_self, UInt32.zero_xor]
  · rw [if_neg leftOdd, if_pos rightOdd] at same
    refine absurd ?_ (half_xor_half_ne_polynomial left right)
    rw [same, UInt32.xor_comm, ← UInt32.xor_assoc, UInt32.xor_self, UInt32.zero_xor]
  · rw [if_neg leftOdd, if_neg rightOdd] at same
    exact eq_of_half_eq same (iff_of_false leftOdd rightOdd)

theorem shiftBits_injective
    {count : Nat}
    {left right : UInt32}
    (same : shiftBits count left = shiftBits count right) :
    left = right := by
  induction count generalizing left right with
  | zero => exact same
  | succ count inductionHypothesis => exact shiftBit_injective (inductionHypothesis same)

/-! ## One byte -/

/-- The same byte leads from different registers to different ones. -/
theorem addByte_injective
    {left right : UInt32}
    {byte : UInt8}
    (same : addByte left byte = addByte right byte) :
    left = right :=
  (UInt32.xor_left_inj _).mp (shiftBits_injective same)

/-- Different bytes lead from the same register to different ones. -/
theorem eq_of_addByte_eq
    {register : UInt32}
    {left right : UInt8}
    (same : addByte register left = addByte register right) :
    left = right :=
  UInt8.toUInt32_inj.mp ((UInt32.xor_right_inj _).mp (shiftBits_injective same))

/-! ## Byte strings -/

/-- What is added behind does not make different registers equal. -/
theorem foldl_addByte_injective
    {bytes : Bytes}
    {left right : UInt32}
    (same : bytes.foldl addByte left = bytes.foldl addByte right) :
    left = right := by
  induction bytes generalizing left right with
  | nil => exact same
  | cons byte bytes inductionHypothesis => exact addByte_injective (inductionHypothesis same)

/-- Byte strings that differ in one byte have different checksums. -/
theorem checksum_ne_of_byte_ne
    {front back : Bytes}
    {left right : UInt8}
    (different : left ≠ right) :
    checksum (front ++ left :: back) ≠ checksum (front ++ right :: back) := by
  intro same
  have registers := (UInt32.xor_left_inj _).mp same
  rw [List.foldl_append, List.foldl_append, List.foldl_cons, List.foldl_cons] at registers
  exact different (eq_of_addByte_eq (foldl_addByte_injective registers))

/-- A byte string in which one byte is replaced by another one has another checksum. -/
theorem checksum_set_ne
    {bytes : Bytes}
    {position : Nat}
    {value : UInt8}
    (inside : position < bytes.length)
    (different : bytes[position]? ≠ some value) :
    checksum (bytes.set position value) ≠ checksum bytes := by
  rw [List.getElem?_eq_getElem inside, ne_eq, Option.some.injEq, eq_comm] at different
  have shape : bytes = bytes.take position ++ bytes[position] :: bytes.drop (position + 1) := by
    rw [List.getElem_cons_drop, List.take_append_drop]
  rw [List.set_eq_take_append_cons_drop, if_pos inside]
  conv => rhs; rw [shape]
  exact checksum_ne_of_byte_ne different

end HartBoot.Crc32
