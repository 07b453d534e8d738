import HartBoot.Codec
import HartBoot.Crc32
import HartBoot.Hart
import HartBoot.Name

/-!
Contract: the records of a boot image file.

Owns:
- `Header`, with one `HartRecord` for each hart;
- `ChunkRecord` and `ZeroRecord`, the entries of the two tables, and the records that end them;
- the codecs of all four, and the checksum of a header.

Does not own: where the records stand in the file (see `HartBoot.ImageFile.Assembly` and
`HartBoot.ImageFile.Inspection`).
-/

namespace HartBoot.ImageFile

abbrev NameBuffer := Buffer Name.bufferSize

def NameBuffer.ofName (name : Name) : NameBuffer :=
  ⟨name.buffer, Name.length_buffer name⟩

/-- What the file says about one hart. -/
structure HartRecord where
  entry : UInt64
  privilege : UInt8
  reserved : Buffer 3
  flags : UInt32
  chunkCount : UInt64
  firstChunk : UInt64
  lastChunk : UInt64
  name : NameBuffer
  deriving DecidableEq

def HartRecord.codec : Codec HartRecord :=
  (Codec.word64.pair <| Codec.word8.pair <| (Codec.buffer 3).pair <| Codec.word32.pair <|
    Codec.word64.pair <| Codec.word64.pair <| Codec.word64.pair <|
      Codec.buffer Name.bufferSize).via
    (fun (entry, privilege, reserved, flags, chunkCount, firstChunk, lastChunk, name) =>
      ⟨entry, privilege, reserved, flags, chunkCount, firstChunk, lastChunk, name⟩)
    (fun record =>
      (record.entry, record.privilege, record.reserved, record.flags, record.chunkCount,
        record.firstChunk, record.lastChunk, record.name))
    (fun _ => rfl)
    (fun _ => rfl)

/-- One record for each hart, in the order of `Hart.all`. -/
def hartsCodec : Codec (PerHart HartRecord) :=
  (HartRecord.codec.pair <| HartRecord.codec.pair <| HartRecord.codec.pair HartRecord.codec).via
    (fun (first, second, third, fourth) => ⟨first, second, third, fourth⟩)
    (fun harts => (harts.u54_1, harts.u54_2, harts.u54_3, harts.u54_4))
    (fun _ => rfl)
    (fun _ => rfl)

/-- The start of the file. -/
structure Header where
  magic : UInt32
  version : UInt32
  /-- The size of everything in front of the data of the chunks. -/
  headerLength : UInt64
  checksum : UInt32
  reserved : UInt32
  /-- Where the table of the chunks starts. -/
  chunkTable : UInt64
  /-- Where the table of the regions of zeros starts. -/
  zeroTable : UInt64
  harts : PerHart HartRecord
  setName : NameBuffer
  /-- The size of the whole file. -/
  imageLength : UInt64
  deriving DecidableEq

namespace Header

def expectedMagic : UInt32 := 0xB007C0DE

def currentVersion : UInt32 := 1

def codec : Codec Header :=
  (Codec.word32.pair <| Codec.word32.pair <| Codec.word64.pair <| Codec.word32.pair <|
    Codec.word32.pair <| Codec.word64.pair <| Codec.word64.pair <| hartsCodec.pair <|
      (Codec.buffer Name.bufferSize).pair Codec.word64).via
    (fun (magic, version, headerLength, checksum, reserved, chunkTable, zeroTable, harts,
        setName, imageLength) =>
      ⟨magic, version, headerLength, checksum, reserved, chunkTable, zeroTable, harts, setName,
        imageLength⟩)
    (fun header =>
      (header.magic, header.version, header.headerLength, header.checksum, header.reserved,
        header.chunkTable, header.zeroTable, header.harts, header.setName, header.imageLength))
    (fun _ => rfl)
    (fun _ => rfl)

def size : Nat := 1488

theorem codec_width : codec.width = size := rfl

/-- The checksum of a header, which is taken with zero in its own place. -/
def ownChecksum (header : Header) : UInt32 :=
  Crc32.checksum (codec.encode { header with checksum := 0 })

def sealed (header : Header) : Header :=
  { header with checksum := header.ownChecksum }

end Header

/-- An entry of the table of the chunks. -/
structure ChunkRecord where
  owner : UInt32
  reserved : UInt32
  /-- Where the data starts in the file. -/
  position : UInt64
  /-- The address that the data is copied to. -/
  address : UInt64
  size : UInt64
  checksum : UInt32
  padding : UInt32
  deriving DecidableEq

namespace ChunkRecord

def codec : Codec ChunkRecord :=
  (Codec.word32.pair <| Codec.word32.pair <| Codec.word64.pair <| Codec.word64.pair <|
    Codec.word64.pair <| Codec.word32.pair Codec.word32).via
    (fun (owner, reserved, position, address, size, checksum, padding) =>
      ⟨owner, reserved, position, address, size, checksum, padding⟩)
    (fun record =>
      (record.owner, record.reserved, record.position, record.address, record.size,
        record.checksum, record.padding))
    (fun _ => rfl)
    (fun _ => rfl)

def width : Nat := 40

theorem codec_width : codec.width = width := rfl

def terminator : ChunkRecord := ⟨0, 0, 0, 0, 0, 0, 0⟩

/-- Whether an entry ends the table: it has no size. -/
def ends (record : ChunkRecord) : Bool :=
  record.size == 0

end ChunkRecord

/-- An entry of the table of the regions of zeros. -/
structure ZeroRecord where
  owner : UInt32
  reserved : UInt32
  address : UInt64
  size : UInt64
  deriving DecidableEq

namespace ZeroRecord

def codec : Codec ZeroRecord :=
  (Codec.word32.pair <| Codec.word32.pair <| Codec.word64.pair Codec.word64).via
    (fun (owner, reserved, address, size) => ⟨owner, reserved, address, size⟩)
    (fun record => (record.owner, record.reserved, record.address, record.size))
    (fun _ => rfl)
    (fun _ => rfl)

def width : Nat := 24

theorem codec_width : codec.width = width := rfl

def terminator : ZeroRecord := ⟨0, 0, 0, 0⟩

/-- Whether an entry ends the table: it has no size. -/
def ends (record : ZeroRecord) : Bool :=
  record.size == 0

end ZeroRecord

end HartBoot.ImageFile
