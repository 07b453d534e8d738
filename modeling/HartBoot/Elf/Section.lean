import HartBoot.Elf.Segment
import HartBoot.Text.Utf8

/-!
Contract: section headers, each of which describes one section of an object.

Owns:
- `Section`, its fields and the reader of one section header;
- `Section.inside`, whether a section lies in the memory of a segment;
- `Section.name`, the name of a section in a table of names.

Does not own: the table of the section headers (see `HartBoot.Elf.Object`).
-/

namespace HartBoot.Elf

/-- One section of an object. -/
structure Section where
  /-- Where its name starts in the table of names. -/
  nameAt : UInt32
  kind : UInt32
  flags : UInt64
  address : UInt64
  /-- Where its data starts in the file. -/
  offset : UInt64
  size : UInt64
  link : UInt32
  info : UInt32
  deriving DecidableEq, Repr

namespace Section

def headerSize : WordSize → Nat
  | .bits32 => 40
  | .bits64 => 64

def reader : Reader Section := do
  let nameAt ← Reader.word
  let kind ← Reader.word
  let flags ← Reader.wide
  let address ← Reader.wide
  let offset ← Reader.wide
  let size ← Reader.wide
  let link ← Reader.word
  let info ← Reader.word
  let _alignment ← Reader.wide
  let _entrySize ← Reader.wide
  pure ⟨nameAt, kind, flags, address, offset, size, link, info⟩

/-- The kind of a section that has no data in the file. -/
def zeroedKind : UInt32 := 8

/-- The flag of a section that takes part in the memory of the program. -/
def allocatedFlag : UInt64 := 0x2

/-- The flag of a section whose data is compressed. -/
def compressedFlag : UInt64 := 0x800

/-- Whether the section has no data in the file. -/
def isZeroed (element : Section) : Bool :=
  element.kind == zeroedKind

def isCompressed (element : Section) : Bool :=
  element.flags &&& compressedFlag != 0

/-- Whether the section takes up memory of the program. -/
def occupies (element : Section) : Bool :=
  element.flags &&& allocatedFlag != 0 && element.size != 0

/-- The address behind the section; one beyond the last address counts as the last one. -/
def stop (element : Section) : Nat :=
  min (element.address.toNat + element.size.toNat) (offsetLimit - 1)

/-- Whether the section lies in the memory of a segment. -/
def inside (element : Section) (segment : Segment) : Bool :=
  segment.address ≤ element.address && element.stop ≤ segment.stop

/-- The text of a name that starts at an offset of a table of names and ends before a zero. -/
def nameIn? (table : Bytes) (start : Nat) : Option String :=
  let rest := table.drop start
  if rest.contains 0 then Utf8.decode? (rest.takeWhile (· != 0)) else none

/-- The name, or a question mark if there is none. -/
def name (element : Section) (table : Option Bytes) : String :=
  (table.bind fun bytes => nameIn? bytes element.nameAt.toNat).getD "?"

end Section

end HartBoot.Elf
