import HartBoot.Proofs.Text.Utf8

/-!
Contract: which bytes are well-formed UTF-8.

Owns:
- `Utf8.Sequence`, the bytes of one character, told by the ranges in which each of them lies;
- `Utf8.WellFormed`, such sequences one after the other, and `wellFormed_iff`, which says that these
  are exactly the bytes that texts have;
- `Utf8.LongestWellFormed`, the longest well-formed part at the front of any bytes, and
  `longestWellFormed_decodeFront`, which says that it is what is read from them.

Does not own: where the bytes come from (see `HartBoot.Proofs.NameBuffer`).
-/

namespace HartBoot.Utf8

/-! ## The bytes of one character -/

/-- A byte that goes on with a character. -/
def Trails (byte : UInt8) : Prop :=
  0x80 ≤ byte.toNat ∧ byte.toNat ≤ 0xBF

/-- A second byte of three or four. Behind some first bytes its range is smaller: what is below it
can be said in fewer bytes, and what is above it are the surrogates, or lies behind the last
character. -/
def Follows (first second : UInt8) : Prop :=
  Trails second ∧
    (first.toNat = 0xE0 → 0xA0 ≤ second.toNat) ∧ (first.toNat = 0xED → second.toNat ≤ 0x9F) ∧
    (first.toNat = 0xF0 → 0x90 ≤ second.toNat) ∧ (first.toNat = 0xF4 → second.toNat ≤ 0x8F)

/-- The bytes of one character. -/
inductive Sequence : Bytes → Prop where
  | one {first : UInt8} (high : first.toNat ≤ 0x7F) : Sequence [first]
  | two {first second : UInt8} (low : 0xC2 ≤ first.toNat) (high : first.toNat ≤ 0xDF)
      (trails : Trails second) : Sequence [first, second]
  | three {first second third : UInt8} (low : 0xE0 ≤ first.toNat) (high : first.toNat ≤ 0xEF)
      (follows : Follows first second) (trails : Trails third) : Sequence [first, second, third]
  | four {first second third fourth : UInt8} (low : 0xF0 ≤ first.toNat)
      (high : first.toNat ≤ 0xF4) (follows : Follows first second) (trails : Trails third)
      (ends : Trails fourth) : Sequence [first, second, third, fourth]

section Sequence

variable {number : Nat} {bytes : Bytes}

theorem toNat_ofNat (small : number < 0x100) : (UInt8.ofNat number).toNat = number :=
  UInt8.toNat_ofNat_of_lt' small

theorem ofNat_eq (byte : UInt8) (same : number = byte.toNat) : UInt8.ofNat number = byte := by
  rw [same, UInt8.ofNat_toNat]

/-- The bytes of a character lie in the ranges of a sequence. -/
theorem sequence_utf8EncodeChar (char : Char) : Sequence (String.utf8EncodeChar char) := by
  have valid : char.val.toNat < 0xD800 ∨ 0xDFFF < char.val.toNat ∧ char.val.toNat < 0x110000 :=
    char.valid
  unfold String.utf8EncodeChar
  generalize char.val.toNat = number at valid
  simp only
  split_ifs with oneByte twoBytes threeBytes
  · apply Sequence.one
    rw [toNat_ofNat (by omega)]
    exact oneByte
  · apply Sequence.two
    all_goals
      simp (disch := omega) only [Trails, toNat_ofNat]
      omega
  · apply Sequence.three
    all_goals
      simp (disch := omega) only [Trails, Follows, toNat_ofNat]
      omega
  · apply Sequence.four
    all_goals
      simp (disch := omega) only [Trails, Follows, toNat_ofNat]
      omega

theorem exists_char_of_isValidChar (number : Nat) (valid : number.isValidChar) :
    ∃ char : Char, char.val.toNat = number :=
  ⟨Char.ofNatAux number valid, rfl⟩

/-- Bytes in the ranges of a sequence are those of a character. The number of the character is put
together from the bits that each byte carries. -/
theorem exists_char_of_sequence (sequence : Sequence bytes) :
    ∃ char, String.utf8EncodeChar char = bytes := by
  cases sequence with
  | @one first high =>
    obtain ⟨char, code⟩ := exists_char_of_isValidChar first.toNat (by omega)
    refine ⟨char, ?_⟩
    unfold String.utf8EncodeChar
    simp only [code]
    rw [if_pos (by omega), ofNat_eq first rfl]
  | @two first second low high trails =>
    obtain ⟨secondLow, secondHigh⟩ := trails
    obtain ⟨char, code⟩ := exists_char_of_isValidChar
      ((first.toNat - 0xC0) * 0x40 + (second.toNat - 0x80)) (by omega)
    refine ⟨char, ?_⟩
    unfold String.utf8EncodeChar
    simp only [code]
    rw [if_neg (by omega), if_pos (by omega), ofNat_eq first (by omega), ofNat_eq second (by omega)]
  | @three first second third low high follows trails =>
    obtain ⟨⟨secondLow, secondHigh⟩, short, surrogate, -, -⟩ := follows
    obtain ⟨thirdLow, thirdHigh⟩ := trails
    obtain ⟨char, code⟩ := exists_char_of_isValidChar
      ((first.toNat - 0xE0) * 0x1000 + (second.toNat - 0x80) * 0x40 + (third.toNat - 0x80))
      (by omega)
    refine ⟨char, ?_⟩
    unfold String.utf8EncodeChar
    simp only [code]
    rw [if_neg (by omega), if_neg (by omega), if_pos (by omega), ofNat_eq first (by omega),
      ofNat_eq second (by omega), ofNat_eq third (by omega)]
  | @four first second third fourth low high follows trails ends =>
    obtain ⟨⟨secondLow, secondHigh⟩, -, -, short, last⟩ := follows
    obtain ⟨thirdLow, thirdHigh⟩ := trails
    obtain ⟨fourthLow, fourthHigh⟩ := ends
    obtain ⟨char, code⟩ := exists_char_of_isValidChar
      ((first.toNat - 0xF0) * 0x40000 + (second.toNat - 0x80) * 0x1000 +
        (third.toNat - 0x80) * 0x40 + (fourth.toNat - 0x80))
      (by omega)
    refine ⟨char, ?_⟩
    unfold String.utf8EncodeChar
    simp only [code]
    rw [if_neg (by omega), if_neg (by omega), if_neg (by omega), ofNat_eq first (by omega),
      ofNat_eq second (by omega), ofNat_eq third (by omega), ofNat_eq fourth (by omega)]

theorem sequence_iff : Sequence bytes ↔ ∃ char, String.utf8EncodeChar char = bytes := by
  constructor
  · exact exists_char_of_sequence
  · rintro ⟨char, rfl⟩
    exact sequence_utf8EncodeChar char

end Sequence

/-! ## Any number of characters -/

/-- Sequences of characters, one after the other, and nothing else. -/
inductive WellFormed : Bytes → Prop where
  | nil : WellFormed []
  | cons {front rest : Bytes} (sequence : Sequence front) (behind : WellFormed rest) :
      WellFormed (front ++ rest)

/-- The well-formed bytes are the bytes of texts. -/
theorem wellFormed_iff {bytes : Bytes} : WellFormed bytes ↔ ∃ chars, encodeChars chars = bytes := by
  constructor
  · intro wellFormed
    induction wellFormed with
    | nil => exact ⟨[], rfl⟩
    | cons sequence _ inductionHypothesis =>
      obtain ⟨char, rfl⟩ := sequence_iff.mp sequence
      obtain ⟨chars, rfl⟩ := inductionHypothesis
      exact ⟨char :: chars, rfl⟩
  · rintro ⟨chars, rfl⟩
    induction chars with
    | nil => exact .nil
    | cons char rest inductionHypothesis =>
      exact .cons (sequence_utf8EncodeChar char) inductionHypothesis

/-! ## The longest well-formed front -/

/-- A part at the front of some bytes is well-formed, and no longer one is. -/
structure LongestWellFormed (bytes kept : Bytes) : Prop where
  front : kept <+: bytes
  wellFormed : WellFormed kept
  longest : ∀ other : Bytes, other <+: bytes → WellFormed other → other <+: kept

/-- The first character is written with the first bytes. -/
theorem utf8EncodeChar_append_drop
    {bytes : Bytes}
    {char : Char}
    (found : first? bytes = some char) :
    String.utf8EncodeChar char ++ bytes.drop char.utf8Size = bytes := by
  obtain ⟨behind, same⟩ := ByteArray.exists_of_utf8DecodeChar?_eq_some found
  have shape : bytes.take 4 = String.utf8EncodeChar char ++ behind.data.toList := by
    have data := congrArg (fun array => array.data.toList) same
    simpa using data
  have whole : bytes = String.utf8EncodeChar char ++ (behind.data.toList ++ bytes.drop 4) := by
    rw [← List.append_assoc, ← shape, List.take_append_drop]
  rw [whole, List.drop_left' (String.length_utf8EncodeChar char)]

/-- What is read and what is left make up all bytes. -/
theorem encodeChars_split (bytes : Bytes) :
    encodeChars (split bytes).1 ++ (split bytes).2 = bytes := by
  fun_induction split bytes with
  | case1 bytes missing => rfl
  | case2 bytes char found chars rest same inductionHypothesis =>
    rw [same] at inductionHypothesis
    show String.utf8EncodeChar char ++ encodeChars chars ++ rest = bytes
    rw [List.append_assoc, inductionHypothesis, utf8EncodeChar_append_drop found]

/-- What is read from some bytes is the longest well-formed part at their front. -/
theorem longestWellFormed_decodeFront (bytes : Bytes) :
    LongestWellFormed bytes (encode (decodeFront bytes)) := by
  have read : encode (decodeFront bytes) = encodeChars (split bytes).1 := by
    rw [encode, decodeFront, String.toList_ofList]
  rw [read]
  refine ⟨⟨(split bytes).2, encodeChars_split bytes⟩, wellFormed_iff.mpr ⟨_, rfl⟩, ?_⟩
  rintro other ⟨rest, rfl⟩ wellFormed
  obtain ⟨chars, rfl⟩ := wellFormed_iff.mp wellFormed
  refine ⟨encodeChars (split rest).1, ?_⟩
  rw [split_encodeChars_append]
  simp [encodeChars]

end HartBoot.Utf8
