import HartBoot.Elf.Header
import HartBoot.Elf.Section

/-!
Contract: an ELF object, its tables, and the data of its sections.

Owns:
- `Object.read`, the header and the two tables of an object;
- `Object.names`, the table with the names of the sections;
- `Object.sectionData`, the data of one section.

A count that does not fit its field of the header stands in the first section header instead.

Does not own: what is done with the sections (see `HartBoot.Elf.Extraction`).
-/

namespace HartBoot.Elf

/-- An ELF object. -/
structure Object where
  bytes : Bytes
  header : Header
  /-- The bytes of the section headers; none if there is no such table. -/
  sectionTable : Option Bytes
  /-- The bytes of the program headers; none if there is no such table. -/
  segmentTable : Option Bytes
  deriving DecidableEq, Repr

namespace Object

/-- The bytes of a table of `count` entries, whose entries have to have the size of their kind. -/
def table (bytes : Bytes) (start count stated expected : Nat) : Except Fault Bytes :=
  if stated ≠ expected then .error (.entrySize expected stated)
  else region bytes start (expected * count)

/-- The section header at an offset of the file, from which missing counts are taken. -/
def firstSection (bytes : Bytes) (header : Header) : Except Fault Section :=
  Section.reader.readAt header.format bytes header.sectionsAt.toNat

def sectionCount (bytes : Bytes) (header : Header) : Except Fault Nat :=
  if header.sectionCount = 0 then
    (firstSection bytes header).map fun first => first.size.toNat
  else
    .ok header.sectionCount.toNat

/-- In place of a number of program headers: the number is too large for its field. -/
def manySegments : UInt16 := 0xFFFF

def segmentCount (bytes : Bytes) (header : Header) : Except Fault Nat :=
  if header.segmentCount = manySegments then
    (firstSection bytes header).map fun first => first.info.toNat
  else
    .ok header.segmentCount.toNat

def findSections (bytes : Bytes) (header : Header) : Except Fault (Option Bytes) :=
  if header.sectionsAt = 0 then
    .ok none
  else do
    let count ← sectionCount bytes header
    let found ←
      table bytes header.sectionsAt.toNat count header.sectionSize.toNat
        (Section.headerSize header.format.wordSize)
    pure (some found)

def findSegments (bytes : Bytes) (header : Header) : Except Fault (Option Bytes) :=
  if header.segmentsAt = 0 then
    .ok none
  else do
    let count ← segmentCount bytes header
    let found ←
      table bytes header.segmentsAt.toNat count header.segmentSize.toNat
        (Segment.size header.format.wordSize)
    pure (some found)

def read (bytes : Bytes) : Except Fault Object := do
  let header ← Header.read bytes
  let sectionTable ← findSections bytes header
  let segmentTable ← findSegments bytes header
  pure ⟨bytes, header, sectionTable, segmentTable⟩

def sectionsOf (object : Object) (table : Bytes) : List Section :=
  let format := object.header.format
  Section.reader.readAll format (Section.headerSize format.wordSize) table

/-- The section headers, if there is a table of them. -/
def sections (object : Object) : Option (List Section) :=
  object.sectionTable.map object.sectionsOf

/-- The program headers, if there is a table of them. -/
def segments (object : Object) : Option (List Segment) :=
  let format := object.header.format
  object.segmentTable.map (Segment.reader.readAll format (Segment.size format.wordSize))

/-- The section header with an index. The index just behind the last entry of a table counts as
an entry that is cut off. -/
def sectionAt (object : Object) (table : Bytes) (index : Nat) : Except Fault Section :=
  let format := object.header.format
  let start := index * Section.headerSize format.wordSize
  if table.isEmpty ∨ table.length < start then .error (.noEntry index)
  else Section.reader.readAt format table start

/-- In place of the section with the names: its index is too large for its field. -/
def distantNames : UInt16 := 0xFFFF

/-- The index of the section with the names in a table of section headers. -/
def namesIndex (object : Object) (table : Bytes) : Except Fault Nat :=
  if object.header.namesIndex = distantNames then
    (object.sectionAt table 0).map fun first => first.link.toNat
  else
    .ok object.header.namesIndex.toNat

def content (object : Object) (element : Section) : Except Fault Bytes :=
  region object.bytes element.offset.toNat element.size.toNat

/-- The table of the names of the sections; none if the object has none. -/
def names (object : Object) : Except Fault (Option Bytes) :=
  match object.sectionTable with
  | none => .ok none
  | some table =>
    if object.header.namesIndex = 0 then
      .ok none
    else do
      let index ← object.namesIndex table
      let element ← object.sectionAt table index
      let found ← object.content element
      pure (some found)

def compressionHeader : Reader Unit :=
  Reader.bySize
    (do
      let _kind ← Reader.word
      let _size ← Reader.word
      let _alignment ← Reader.word
      pure ())
    (do
      let _kind ← Reader.word
      let _reserved ← Reader.word
      let _size ← Reader.wide
      let _alignment ← Reader.wide
      pure ())

/-- The data of a section, which may not be compressed; `label` is the name of the section. -/
def sectionData (object : Object) (label : String) (element : Section) : Except Fault Bytes := do
  let data ← object.content element
  if element.isCompressed then
    compressionHeader.readAt object.header.format data 0
    throw (.compressedSection label)
  else
    pure data

end Object

end HartBoot.Elf
