import HartBoot.Text.Utf8
import Mathlib.Tactic.SplitIfs

/-!
Contract: what was written as UTF-8 can be read back.

Owns:
- `Utf8.split_encodeChars_append`, the characters at the front of some bytes;
- `Utf8.eq_nul_of_zero_mem`, the one character whose bytes have a zero among them.

Does not own: the buffers that end at a zero (see `HartBoot.Proofs.NameBuffer`).
-/

namespace HartBoot.Utf8

/-- The bytes of a character are read as that character, whatever follows them. -/
theorem first?_utf8EncodeChar_append (char : Char) (rest : Bytes) :
    first? (String.utf8EncodeChar char ++ rest) = some char := by
  have short : (String.utf8EncodeChar char).length ≤ 4 := by
    rw [String.length_utf8EncodeChar]
    exact char.utf8Size_le_four
  unfold first?
  rw [List.take_append, List.take_of_length_le short, List.toByteArray_append]
  exact ByteArray.utf8DecodeChar?_utf8EncodeChar_append

/-- The bytes of characters are read as those characters, up to what follows them. -/
theorem split_encodeChars_append (chars : List Char) (rest : Bytes) :
    split (encodeChars chars ++ rest) = (chars ++ (split rest).1, (split rest).2) := by
  induction chars with
  | nil => rfl
  | cons char chars inductionHypothesis =>
    have shape :
        encodeChars (char :: chars) ++ rest =
          String.utf8EncodeChar char ++ (encodeChars chars ++ rest) := by
      simp [encodeChars]
    have behind :
        (String.utf8EncodeChar char ++ (encodeChars chars ++ rest)).drop char.utf8Size =
          encodeChars chars ++ rest :=
      List.drop_left' (String.length_utf8EncodeChar char)
    rw [shape, split]
    split
    · next missing =>
      rw [first?_utf8EncodeChar_append] at missing
      contradiction
    · next found first =>
      rw [first?_utf8EncodeChar_append] at first
      obtain rfl := Option.some.inj first
      rw [behind, inductionHypothesis]
      rfl

@[simp] theorem split_nil : split [] = ([], []) := by
  rw [split]
  split
  · rfl
  · next found first =>
    rw [first?_nil] at first
    contradiction

theorem split_encodeChars (chars : List Char) : split (encodeChars chars) = (chars, []) := by
  have whole := split_encodeChars_append chars []
  rwa [List.append_nil, split_nil, List.append_nil] at whole

theorem decodeFront_encodeChars (chars : List Char) :
    decodeFront (encodeChars chars) = String.ofList chars := by
  rw [decodeFront, split_encodeChars]

/-- The bytes of a text are well-formed throughout. -/
theorem decode?_encode (text : String) : decode? (encode text) = some text := by
  rw [decode?, encode, split_encodeChars]
  exact congrArg some String.ofList_toList

/-- A byte with a mark in its high bits is not zero. -/
theorem zero_ne_ofNat {number : Nat} (marked : 0x80 ≤ number) (small : number < 0x100) :
    0 ≠ UInt8.ofNat number := by
  intro same
  have values := congrArg UInt8.toNat same
  rw [UInt8.toNat_ofNat_of_lt' small] at values
  have zero : number = 0 := values.symm
  omega

/-- Of all characters only the first one is written with a zero. -/
theorem eq_nul_of_zero_mem
    {char : Char}
    (member : 0 ∈ String.utf8EncodeChar char) :
    char = '\x00' := by
  unfold String.utf8EncodeChar at member
  simp only at member
  -- The bytes of the longer forms are all marked.
  split_ifs at member with oneByte twoBytes threeBytes
  · rw [List.mem_singleton] at member
    have values := congrArg UInt8.toNat member
    rw [UInt8.toNat_ofNat_of_lt' (by omega : char.val.toNat < 0x100)] at values
    exact Char.ext (UInt32.toNat.inj values.symm)
  all_goals simp only [List.mem_cons, List.not_mem_nil, or_false] at member
  · rcases member with same | same <;>
      exact absurd same (zero_ne_ofNat (by omega) (by omega))
  · rcases member with same | same | same <;>
      exact absurd same (zero_ne_ofNat (by omega) (by omega))
  · rcases member with same | same | same | same <;>
      exact absurd same (zero_ne_ofNat (by omega) (by omega))

/-- The bytes of characters have a zero among them only for the first of all characters. -/
theorem takeWhile_encodeChars (chars : List Char) (rest : Bytes) :
    (encodeChars chars ++ 0 :: rest).takeWhile (· != 0) =
      encodeChars (chars.takeWhile (· != '\x00')) := by
  induction chars with
  | nil => rfl
  | cons char chars inductionHypothesis =>
    by_cases nul : char = '\x00'
    · subst nul
      rfl
    · have unmarked : ∀ byte ∈ String.utf8EncodeChar char, (byte != 0) = true := by
        intro byte member
        rw [bne_iff_ne]
        rintro rfl
        exact nul (eq_nul_of_zero_mem member)
      have kept : (char != '\x00') = true := by simpa using nul
      rw [List.takeWhile_cons, if_pos kept]
      simp only [encodeChars, List.flatMap_cons, List.append_assoc] at inductionHypothesis ⊢
      rw [List.takeWhile_append_of_pos unmarked, inductionHypothesis]

end HartBoot.Utf8
