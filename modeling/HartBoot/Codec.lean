import HartBoot.ByteOrder

/-!
Contract: values that are written as a fixed number of bytes.

Owns:
- `Codec`, a way to write every value of a type so that each byte string of the right length is
  the written form of exactly one value;
- `Buffer`, the type whose values are such byte strings;
- the codecs of bounded numbers, buffers and pairs, and the codec of a type that has the same
  values as another one;
- the codecs of words, whose values are bounded numbers.

Numbers are written least significant byte first.

Does not own: records (see `HartBoot.ImageFile.Record`).
-/

namespace HartBoot

/-- A one-to-one correspondence between the values of a type and the byte strings of a length. -/
structure Codec (α : Type) where
  width : Nat
  encode : α → Bytes
  /-- The value of a byte string; it counts only for byte strings of the right length. -/
  decode : Bytes → α
  length_encode : ∀ value, (encode value).length = width
  decode_encode : ∀ value, decode (encode value) = value
  encode_decode : ∀ bytes, bytes.length = width → encode (decode bytes) = bytes

/-- A byte string of a fixed length. -/
structure Buffer (size : Nat) where
  bytes : Bytes
  length_eq : bytes.length = size
  deriving DecidableEq

def Buffer.zeros (size : Nat) : Buffer size :=
  ⟨Bytes.zeros size, Bytes.length_zeros size⟩

namespace Codec

variable {α β : Type}

def pair (first : Codec α) (second : Codec β) : Codec (α × β) where
  width := first.width + second.width
  encode value := first.encode value.1 ++ second.encode value.2
  decode bytes := (first.decode (bytes.take first.width), second.decode (bytes.drop first.width))
  length_encode value := by simp [first.length_encode, second.length_encode]
  decode_encode value := by
    rw [List.take_left' (first.length_encode value.1), List.drop_left' (first.length_encode value.1),
      first.decode_encode, second.decode_encode]
  encode_decode bytes exact_length := by
    have front : (bytes.take first.width).length = first.width := by
      rw [List.length_take]
      omega
    have behind : (bytes.drop first.width).length = second.width := by
      rw [List.length_drop]
      omega
    simp only [first.encode_decode _ front, second.encode_decode _ behind, List.take_append_drop]

/-- The codec of a type whose values stand one for one for the values of another type. -/
def via
    (codec : Codec α)
    (wrap : α → β)
    (unwrap : β → α)
    (unwrap_wrap : ∀ value, unwrap (wrap value) = value)
    (wrap_unwrap : ∀ value, wrap (unwrap value) = value) :
    Codec β where
  width := codec.width
  encode value := codec.encode (unwrap value)
  decode bytes := wrap (codec.decode bytes)
  length_encode value := codec.length_encode (unwrap value)
  decode_encode value := by rw [codec.decode_encode, wrap_unwrap]
  encode_decode bytes exact_length := by rw [unwrap_wrap, codec.encode_decode bytes exact_length]

/-- The numbers that a count of bytes can denote. -/
def number (count : Nat) : Codec (Fin (ByteOrder.span count)) where
  width := count
  encode value := ByteOrder.little.encode count value
  decode bytes :=
    ⟨ByteOrder.little.value bytes % ByteOrder.span count, Nat.mod_lt _ (ByteOrder.span_pos count)⟩
  length_encode value := ByteOrder.length_encode _ _ _
  decode_encode value := by
    apply Fin.ext
    show ByteOrder.little.value (ByteOrder.little.encode count value) % ByteOrder.span count = value
    rw [ByteOrder.value_encode, Nat.mod_mod, Nat.mod_eq_of_lt value.isLt]
  encode_decode bytes exact_length := by
    have bounded := ByteOrder.little.value_lt bytes
    rw [exact_length] at bounded
    show ByteOrder.little.encode count (ByteOrder.little.value bytes % ByteOrder.span count) = bytes
    rw [Nat.mod_eq_of_lt bounded, ← exact_length, ByteOrder.encode_value]

def word8 : Codec UInt8 :=
  (number 1).via UInt8.ofFin UInt8.toFin UInt8.toFin_ofFin UInt8.ofFin_toFin

def word32 : Codec UInt32 :=
  (number 4).via UInt32.ofFin UInt32.toFin UInt32.toFin_ofFin UInt32.ofFin_toFin

def word64 : Codec UInt64 :=
  (number 8).via UInt64.ofFin UInt64.toFin UInt64.toFin_ofFin UInt64.ofFin_toFin

def buffer (size : Nat) : Codec (Buffer size) where
  width := size
  encode value := value.bytes
  decode bytes := if exact_length : bytes.length = size then ⟨bytes, exact_length⟩ else .zeros size
  length_encode value := value.length_eq
  decode_encode value := by rw [dif_pos value.length_eq]
  encode_decode bytes exact_length := by rw [dif_pos exact_length]

end Codec

end HartBoot
