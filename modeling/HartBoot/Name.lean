import HartBoot.Text.Utf8
import HartBoot.Transcript

/-!
Contract: names that fit the fixed name buffers of an image.

Owns:
- `Name`, a text of at most 255 bytes;
- `Name.push` and `Name.join`, which append as many whole characters as fit;
- `Name.buffer`, the 256 bytes in which a name is stored, and `Name.read`, the text in a buffer.

A text that does not fit is cut before the first character that has no room.

Does not own: what is named.
-/

namespace HartBoot

/-- The most bytes a name can have; one more byte of its buffer ends it. -/
def Name.capacity : Nat := 255

/-- A text that fits a name buffer. -/
structure Name where
  text : String
  fits : text.utf8ByteSize ≤ Name.capacity
  deriving DecidableEq

namespace Name

def empty : Name where
  text := ""
  fits := by decide

instance : Inhabited Name := ⟨empty⟩

def size (name : Name) : Nat :=
  name.text.utf8ByteSize

def isEmpty (name : Name) : Bool :=
  name.text == ""

/-- The characters from the front that fit into `room` bytes, up to the first that does not. -/
def fitting : Nat → List Char → List Char
  | _, [] => []
  | room, char :: rest =>
    if char.utf8Size ≤ room then char :: fitting (room - char.utf8Size) rest else []

def byteCount : List Char → Nat
  | [] => 0
  | char :: rest => char.utf8Size + byteCount rest

theorem byteCount_fitting (room : Nat) (chars : List Char) :
    byteCount (fitting room chars) ≤ room := by
  induction chars generalizing room with
  | nil => simp [fitting, byteCount]
  | cons char rest inductionHypothesis =>
    unfold fitting
    split
    · next small =>
      have tail := inductionHypothesis (room - char.utf8Size)
      simp only [byteCount] at tail ⊢
      omega
    · simp [byteCount]

theorem utf8ByteSize_ofList (chars : List Char) :
    (String.ofList chars).utf8ByteSize = byteCount chars := by
  induction chars with
  | nil => simp [byteCount]
  | cons char rest inductionHypothesis =>
    rw [String.ofList_cons, String.utf8ByteSize_append, inductionHypothesis]
    simp [byteCount]

/-- The name followed by the characters of a text that still fit. -/
def extend (name : Name) (suffix : String) : Name where
  text := name.text ++ String.ofList (fitting (capacity - name.size) suffix.toList)
  fits := by
    have kept := byteCount_fitting (capacity - name.size) suffix.toList
    have old := name.fits
    rw [String.utf8ByteSize_append, utf8ByteSize_ofList]
    unfold size at kept ⊢
    omega

/-- What became of a text that was appended. -/
structure Appended where
  name : Name
  /-- Whether all of the text was taken. -/
  whole : Bool
  notes : Transcript

/-- Append a text; a text that does not fit is cut, and the cut is reported. -/
def push (name : Name) (suffix : String) : Appended :=
  let longer := name.extend suffix
  if name.size + suffix.utf8ByteSize ≤ capacity then
    ⟨longer, true, []⟩
  else
    ⟨longer, false,
      [.trace s!"name truncated to {longer.size} bytes: >>{longer.text}<<"]⟩

def ofText (text : String) : Name :=
  (empty.push text).name

/-- Append a text behind a `+`, which is left out if the name is empty. When there is no room
for the `+`, the text is not tried. -/
def join (name : Name) (suffix : String) : Appended :=
  if name.isEmpty then
    name.push suffix
  else
    let joined := name.push "+"
    if joined.whole then
      let longer := joined.name.push suffix
      { longer with notes := joined.notes ++ longer.notes }
    else
      joined

def bufferSize : Nat := capacity + 1

/-- The name as it is stored: its bytes, followed by zeros up to the size of a buffer. -/
def buffer (name : Name) : Bytes :=
  let bytes := Utf8.encode name.text
  bytes ++ Bytes.zeros (bufferSize - bytes.length)

/-- The text in a buffer: the longest well-formed part of what stands before the first zero. -/
def read (buffer : Bytes) : String :=
  Utf8.decodeFront (buffer.takeWhile (· != 0))

theorem length_encode (text : String) : (Utf8.encode text).length = text.utf8ByteSize := by
  have counted : ∀ chars : List Char, (Utf8.encodeChars chars).length = byteCount chars := by
    intro chars
    induction chars with
    | nil => rfl
    | cons char rest inductionHypothesis =>
      simp only [Utf8.encodeChars, List.flatMap_cons, List.length_append,
        String.length_utf8EncodeChar, byteCount] at *
      omega
  rw [Utf8.encode, counted, ← utf8ByteSize_ofList, String.ofList_toList]

/-- Every name fills a buffer exactly. -/
@[simp] theorem length_buffer (name : Name) : name.buffer.length = bufferSize := by
  have old := name.fits
  simp only [buffer, List.length_append, length_encode, Bytes.length_zeros]
  unfold bufferSize
  omega

end Name

end HartBoot
