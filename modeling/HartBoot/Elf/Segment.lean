import HartBoot.Elf.Field
import HartBoot.Transcript

/-!
Contract: program headers, each of which describes one segment of the memory of a program.

Owns:
- `Segment`, its fields and the reader of one program header;
- the text of one program header in a listing.

Does not own: the table of the program headers (see `HartBoot.Elf.Object`).
-/

namespace HartBoot.Elf

/-- One segment of the memory of a program. -/
structure Segment where
  kind : UInt32
  flags : UInt32
  /-- Where its data starts in the file. -/
  offset : UInt64
  address : UInt64
  physicalAddress : UInt64
  fileSize : UInt64
  memorySize : UInt64
  alignment : UInt64
  deriving DecidableEq, Repr

namespace Segment

def size : WordSize → Nat
  | .bits32 => 32
  | .bits64 => 56

/-- One program header. The flags stand near its end in the narrow form. -/
def reader : Reader Segment :=
  Reader.bySize
    (do
      let kind ← Reader.word
      let offset ← Reader.wide
      let address ← Reader.wide
      let physicalAddress ← Reader.wide
      let fileSize ← Reader.wide
      let memorySize ← Reader.wide
      let flags ← Reader.word
      let alignment ← Reader.wide
      pure ⟨kind, flags, offset, address, physicalAddress, fileSize, memorySize, alignment⟩)
    (do
      let kind ← Reader.word
      let flags ← Reader.word
      let offset ← Reader.wide
      let address ← Reader.wide
      let physicalAddress ← Reader.wide
      let fileSize ← Reader.wide
      let memorySize ← Reader.wide
      let alignment ← Reader.wide
      pure ⟨kind, flags, offset, address, physicalAddress, fileSize, memorySize, alignment⟩)

/-- The kind of a segment that is loaded into memory. -/
def loadKind : UInt32 := 1

def loads (segment : Segment) : Bool :=
  segment.kind == loadKind

/-- The address behind the segment; one beyond the last address counts as the last one. -/
def stop (segment : Segment) : Nat :=
  min (segment.address.toNat + segment.memorySize.toNat) (offsetLimit - 1)

def kindLabel (segment : Segment) : String :=
  match segment.kind with
  | 1 => "LOAD"
  | 2 => "DYNAMIC"
  | 3 => "INTERP"
  | 4 => "NOTE"
  | 6 => "PHDR"
  | 7 => "TLS"
  | 0x6474E551 => "GNU_STACK"
  | other => Text.hex other.toNat

/-- A letter for each flag that is set, a blank for each other: readable, writable, executable. -/
def flagLetters (segment : Segment) : String :=
  let letter (bit : UInt32) (char : Char) : Char :=
    if segment.flags &&& bit != 0 then char else ' '
  String.ofList [letter 4 'R', letter 2 'W', letter 1 'E']

/-- The first half of the listing of a segment: its number, its kind and where it is. -/
def whereText (index : Nat) (segment : Segment) : String :=
  "   " ++ Text.decimalPadded 2 index ++ "  " ++ Text.padRight 14 segment.kindLabel ++ " " ++
    Text.address segment.offset ++ " " ++ Text.address segment.address ++ " " ++
    Text.address segment.physicalAddress

/-- The second half of the listing of a segment: its sizes, its flags and its alignment. -/
def sizeText (segment : Segment) : String :=
  " " ++ Text.address segment.fileSize ++ " " ++ Text.address segment.memorySize ++ "  " ++
    segment.flagLetters ++ "    " ++ Text.hex segment.alignment.toNat

/-- The listing of a segment, on one line if `wide`, else on two. -/
def listing (wide : Bool) (index : Nat) (segment : Segment) : Transcript :=
  if wide then
    [.debug (segment.whereText index ++ segment.sizeText)]
  else
    [.debug (segment.whereText index), .debug ("                     " ++ segment.sizeText)]

end Segment

end HartBoot.Elf
