import HartBoot.Bytes

/-!
Contract: numbers written as a fixed count of bytes, least or most significant byte first.

Owns:
- `ByteOrder` and the two conversions `ByteOrder.value` and `ByteOrder.encode`;
- the laws that make them inverse to each other at every width.

Does not own: which record has which fields.
-/

namespace HartBoot

/-- Which end of a number is written first. -/
inductive ByteOrder where
  | little
  | big
  deriving DecidableEq, Repr

namespace ByteOrder

/-- The number whose base-256 digits are the bytes, least significant first. -/
def littleValue : Bytes → Nat
  | [] => 0
  | byte :: rest => byte.toNat + 256 * littleValue rest

/-- The `width` lowest base-256 digits of a number, least significant first. -/
def littleEncode : Nat → Nat → Bytes
  | 0, _ => []
  | width + 1, value => UInt8.ofNat value :: littleEncode width (value / 256)

def value (order : ByteOrder) (bytes : Bytes) : Nat :=
  match order with
  | .little => littleValue bytes
  | .big => littleValue bytes.reverse

/-- A number as `width` bytes; digits beyond them are dropped. -/
def encode (order : ByteOrder) (width value : Nat) : Bytes :=
  match order with
  | .little => littleEncode width value
  | .big => (littleEncode width value).reverse

/-- The number of values that `width` bytes can denote. -/
def span : Nat → Nat
  | 0 => 1
  | width + 1 => 256 * span width

theorem span_pos (width : Nat) : 0 < span width := by
  induction width with
  | zero => exact Nat.one_pos
  | succ width inductionHypothesis => exact Nat.mul_pos (by decide) inductionHypothesis

@[simp] theorem length_littleEncode (width value : Nat) :
    (littleEncode width value).length = width := by
  induction width generalizing value with
  | zero => rfl
  | succ width inductionHypothesis => simp [littleEncode, inductionHypothesis]

@[simp] theorem length_encode (order : ByteOrder) (width value : Nat) :
    (order.encode width value).length = width := by
  cases order <;> simp [encode]

theorem littleValue_littleEncode (width value : Nat) :
    littleValue (littleEncode width value) = value % span width := by
  induction width generalizing value with
  | zero => simp [littleEncode, littleValue, span, Nat.mod_one]
  | succ width inductionHypothesis =>
    simp only [littleEncode, littleValue, inductionHypothesis, span]
    rw [Nat.mod_mul]
    simp

theorem littleValue_lt (bytes : Bytes) : littleValue bytes < span bytes.length := by
  induction bytes with
  | nil => simp [littleValue, span]
  | cons byte rest inductionHypothesis =>
    have byteLt := byte.toNat_lt
    simp only [littleValue, List.length_cons, span]
    omega

theorem littleEncode_littleValue (bytes : Bytes) :
    littleEncode bytes.length (littleValue bytes) = bytes := by
  induction bytes with
  | nil => rfl
  | cons byte rest inductionHypothesis =>
    have byteLt := byte.toNat_lt
    simp only [littleValue, List.length_cons, littleEncode]
    have quotient : (byte.toNat + 256 * littleValue rest) / 256 = littleValue rest := by
      omega
    have digit : UInt8.ofNat (byte.toNat + 256 * littleValue rest) = byte := by
      apply UInt8.toNat.inj
      simp only [UInt8.toNat_ofNat']
      omega
    rw [quotient, inductionHypothesis, digit]

/-- Reading what was written gives the number back, less the digits that did not fit. -/
theorem value_encode (order : ByteOrder) (width number : Nat) :
    order.value (order.encode width number) = number % span width := by
  cases order <;> simp [value, encode, littleValue_littleEncode]

/-- Writing what was read gives the bytes back. -/
theorem encode_value (order : ByteOrder) (bytes : Bytes) :
    order.encode bytes.length (order.value bytes) = bytes := by
  cases order with
  | little => exact littleEncode_littleValue bytes
  | big =>
    have reversed := littleEncode_littleValue bytes.reverse
    rw [List.length_reverse] at reversed
    simp [value, encode, reversed]

/-- A number read from some bytes fits them. -/
theorem value_lt (order : ByteOrder) (bytes : Bytes) :
    order.value bytes < span bytes.length := by
  cases order with
  | little => exact littleValue_lt bytes
  | big =>
    have reversed := littleValue_lt bytes.reverse
    rw [List.length_reverse] at reversed
    exact reversed

end ByteOrder

end HartBoot
