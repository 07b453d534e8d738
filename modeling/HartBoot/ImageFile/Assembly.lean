import HartBoot.Image
import HartBoot.ImageFile.Record
import HartBoot.LoadPlan

/-!
Contract: the bytes of a boot image file.

Owns:
- `ImageFile.assemble`, the file for an image and a load plan;
- `Layout`, where its regions start, and the records that stand in the two tables;
- what is said while a file is put together.

A file is a header, a table of chunks, a table of regions of zeros, and the data of the chunks.
Each table ends with a record of zeros. Every region and the data of every chunk is followed by
the zeros that bring its size up to a multiple of eight, so everything starts at such a multiple.

Does not own: reading a file back (see `HartBoot.ImageFile.Inspection`).
-/

namespace HartBoot.ImageFile

/-- Every region of the file starts at a multiple of this. -/
def unit : Nat := 8

/-- Where the regions of a file start. -/
structure Layout where
  chunkTable : Nat
  zeroTable : Nat
  /-- Where the data of the chunks starts. -/
  data : Nat
  deriving DecidableEq, Repr

/-- The size of a table with an entry for each element and one more at its end. -/
def tableSize (width count : Nat) : Nat :=
  roundUp (width * (count + 1)) unit

def Layout.ofPlan (plan : LoadPlan) : Layout :=
  let chunkTable := roundUp Header.size unit
  let zeroTable := chunkTable + tableSize ChunkRecord.width plan.chunks.length
  ⟨chunkTable, zeroTable, zeroTable + tableSize ZeroRecord.width plan.zeroed.length⟩

/-- The record of a chunk whose data starts at a position. -/
def ChunkRecord.ofChunk (position : Nat) (chunk : Chunk) : ChunkRecord where
  owner := chunk.owner.number
  reserved := 0
  position := UInt64.ofNat position
  address := chunk.address
  size := UInt64.ofNat chunk.data.length
  checksum := chunk.checksum
  padding := 0

/-- The records of chunks, the data of the first of which starts at a position. -/
def chunkRecords : Nat → List Chunk → List ChunkRecord
  | _, [] => []
  | position, chunk :: rest =>
    ChunkRecord.ofChunk position chunk ::
      chunkRecords (position + roundUp chunk.data.length unit) rest

def ZeroRecord.ofRegion (region : ZeroRegion) : ZeroRecord where
  owner := region.owner.number
  reserved := 0
  address := region.address
  size := region.size

def chunkTable (plan : LoadPlan) : Bytes :=
  let records := chunkRecords (Layout.ofPlan plan).data plan.chunks
  Bytes.padTo ((records ++ [ChunkRecord.terminator]).flatMap ChunkRecord.codec.encode) unit

def zeroTable (plan : LoadPlan) : Bytes :=
  let records := plan.zeroed.map ZeroRecord.ofRegion
  Bytes.padTo ((records ++ [ZeroRecord.terminator]).flatMap ZeroRecord.codec.encode) unit

def chunkData (plan : LoadPlan) : Bytes :=
  plan.chunks.flatMap fun chunk => chunk.data.padTo unit

def body (plan : LoadPlan) : Bytes :=
  chunkTable plan ++ zeroTable plan ++ chunkData plan

def HartRecord.ofHart (image : Image) (plan : LoadPlan) (hart : Hart) : HartRecord :=
  let settings := image.settings hart
  let share := plan.share hart
  { entry := settings.entry.getD 0
    privilege := settings.privilege.code
    reserved := Buffer.zeros 3
    flags := settings.flags.bits
    chunkCount := UInt64.ofNat share.count
    firstChunk := UInt64.ofNat share.first
    lastChunk := UInt64.ofNat share.last
    name := NameBuffer.ofName settings.name }

def unsealedHeader (image : Image) (plan : LoadPlan) : Header :=
  let layout := Layout.ofPlan plan
  { magic := Header.expectedMagic
    version := Header.currentVersion
    headerLength := UInt64.ofNat layout.data
    checksum := 0
    reserved := 0
    chunkTable := UInt64.ofNat layout.chunkTable
    zeroTable := UInt64.ofNat layout.zeroTable
    harts := PerHart.ofFn (HartRecord.ofHart image plan)
    setName := NameBuffer.ofName image.setName
    imageLength := UInt64.ofNat (layout.chunkTable + (body plan).length) }

def header (image : Image) (plan : LoadPlan) : Header :=
  (unsealedHeader image plan).sealed

/-- The file for an image and a load plan. -/
def assemble (image : Image) (plan : LoadPlan) : Bytes :=
  Bytes.padTo (Header.codec.encode (header image plan)) unit ++ body plan

/-- What is said of each chunk, given the position of its record and the position of its data. -/
def chunkNotes : Nat → Nat → Nat → List Chunk → Transcript
  | _, _, _, [] => []
  | index, recordAt, position, chunk :: rest =>
    .trace
        ("\t- chunk " ++ toString index ++ " (" ++ toString chunk.data.length ++
          " bytes) at file position " ++ toString recordAt ++ " (blob is expected at " ++
          toString position ++ ")") ::
      chunkNotes (index + 1) (recordAt + ChunkRecord.width)
        (position + roundUp chunk.data.length unit) rest

/-- What is said while a file is put together. -/
def assemblyNotes (plan : LoadPlan) : Transcript :=
  let layout := Layout.ofPlan plan
  [.debug "Outputting Code/Data Chunks"] ++
    chunkNotes 0 layout.chunkTable layout.data plan.chunks ++
    [.debug "Outputting ZI Chunks",
      .trace ("End of header is " ++ toString layout.data),
      .debug "Outputting Binary Data"]

end HartBoot.ImageFile
