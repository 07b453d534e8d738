import HartBoot.Bytes

/-!
Contract: text as UTF-8 bytes.

Owns:
- `Utf8.encode`, the bytes of a text;
- `Utf8.split`, the characters of the longest well-formed part at the front of some bytes;
- `Utf8.decode?`, the text of bytes that are well-formed throughout.

Does not own: where a text ends (see `HartBoot.Name`).
-/

namespace HartBoot.Utf8

def encodeChars (chars : List Char) : Bytes :=
  chars.flatMap String.utf8EncodeChar

def encode (text : String) : Bytes :=
  encodeChars text.toList

/-- The character at the front of some bytes, if they start with a well-formed one. -/
def first? (bytes : Bytes) : Option Char :=
  (bytes.take 4).toByteArray.utf8DecodeChar? 0

/-- There is no character at the front of nothing. -/
theorem first?_nil : first? [] = none := by
  cases found : first? [] with
  | none => rfl
  | some char =>
    have inside := ByteArray.le_size_of_utf8DecodeChar?_eq_some found
    have positive := char.utf8Size_pos
    simp at inside
    omega

/-- The characters of the longest well-formed part at the front, and the bytes after it. -/
def split (bytes : Bytes) : List Char × Bytes :=
  match _found : first? bytes with
  | none => ([], bytes)
  | some char =>
    let (chars, rest) := split (bytes.drop char.utf8Size)
    (char :: chars, rest)
termination_by bytes.length
decreasing_by
  have positive := char.utf8Size_pos
  cases bytes with
  | nil => rw [first?_nil] at _found; contradiction
  | cons byte rest =>
    simp only [List.length_drop, List.length_cons]
    omega

/-- The text of some bytes, if they are well-formed throughout. -/
def decode? (bytes : Bytes) : Option String :=
  match split bytes with
  | (chars, []) => some (String.ofList chars)
  | _ => none

/-- The text of the longest well-formed part at the front. -/
def decodeFront (bytes : Bytes) : String :=
  String.ofList (split bytes).1

end HartBoot.Utf8
