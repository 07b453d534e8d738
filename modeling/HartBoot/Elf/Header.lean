import HartBoot.Elf.Field

/-!
Contract: the header at the start of an ELF object.

Owns:
- `Header`, its fields, and `Header.read`;
- `hasMagic`, whether a file claims to be an ELF object.

The identification comes first: it decides how the fields behind it are written.

Does not own: the tables that the header names (see `HartBoot.Elf.Object`).
-/

namespace HartBoot.Elf

def magic : Bytes := [0x7F, 0x45, 0x4C, 0x46]

/-- Whether a file claims to be an ELF object. -/
def hasMagic (bytes : Bytes) : Bool :=
  magic.isPrefixOf bytes

/-- The header of an ELF object. -/
structure Header where
  format : Format
  kind : UInt16
  machine : UInt16
  entry : UInt64
  /-- Where the program headers start; zero if there are none. -/
  segmentsAt : UInt64
  /-- Where the section headers start; zero if there are none. -/
  sectionsAt : UInt64
  segmentSize : UInt16
  segmentCount : UInt16
  sectionSize : UInt16
  sectionCount : UInt16
  /-- The section with the names of the sections. -/
  namesIndex : UInt16
  deriving DecidableEq, Repr

namespace Header

def identificationSize : Nat := 16

def size : WordSize → Nat
  | .bits32 => 0x34
  | .bits64 => 0x40

def executable : UInt16 := 2

def riscV : UInt16 := 243

def formatOf (identification : Bytes) : Except Fault Format := do
  let version := identification.getD 6 0
  let wordSize := identification.getD 4 0
  let order := identification.getD 5 0
  if version ≠ 1 then throw (.version version)
  let wordSize ←
    match wordSize with
    | 1 => pure WordSize.bits32
    | 2 => pure WordSize.bits64
    | other => throw (.wordSize other)
  let order ←
    match order with
    | 1 => pure ByteOrder.little
    | 2 => pure ByteOrder.big
    | other => throw (.byteOrder other)
  pure ⟨wordSize, order⟩

def fields (format : Format) : Reader Header := do
  let kind ← Reader.half
  let machine ← Reader.half
  let _version ← Reader.word
  let entry ← Reader.wide
  let segmentsAt ← Reader.wide
  let sectionsAt ← Reader.wide
  let _flags ← Reader.word
  let _headerSize ← Reader.half
  let segmentSize ← Reader.half
  let segmentCount ← Reader.half
  let sectionSize ← Reader.half
  let sectionCount ← Reader.half
  let namesIndex ← Reader.half
  pure
    { format := format
      kind := kind
      machine := machine
      entry := entry
      segmentsAt := segmentsAt
      sectionsAt := sectionsAt
      segmentSize := segmentSize
      segmentCount := segmentCount
      sectionSize := sectionSize
      sectionCount := sectionCount
      namesIndex := namesIndex }

/-- The header of an object. Its two parts have to be there before any of their fields counts. -/
def read (bytes : Bytes) : Except Fault Header := do
  let identification ← region bytes 0 identificationSize
  let format ← formatOf identification
  let rest ← region bytes identificationSize (size format.wordSize - identificationSize)
  (fields format).readAt format rest 0

end Header

end HartBoot.Elf
