import HartBoot.ImageFile.Record
import HartBoot.Text.Hex
import HartBoot.Transcript

/-!
Contract: reading a boot image file back.

Owns:
- `ImageFile.inspect`, the records of a file whose checksums are right, and `Fault`, why there
  are none;
- `readTable`, the records of a table up to the one that ends it;
- `inspectionNotes`, the warning about a file that starts with another number.

Positions in a file are words of eight bytes. The end of a record is computed before it is compared
with the end of the file, and when it is no such word, the reading is broken off.

Does not own: printing the records (see `HartBoot.ImageFile.Report`).
-/

namespace HartBoot.ImageFile

/-- Why the records of a file cannot be read. -/
inductive Fault where
  /-- There is no room for a header. -/
  | tooSmall
  | headerChecksum (stated calculated : UInt32)
  /-- A table has no end. -/
  | tablePastEnd (start : UInt64)
  | chunkPastEnd (index : Nat)
  | chunkChecksum (index : Nat) (owner : UInt32)
  /-- The end of a record would have been a sum that is no word of eight bytes. No error is handed
  back then: the reading is broken off, and the whole program with it. -/
  | overflow
  deriving DecidableEq, Repr

def Fault.message : Fault → String
  | .tooSmall => "Image too small to contain the header."
  | .headerChecksum stated calculated =>
    "Header CRC mismatch: expected " ++ Text.hexPadded 8 stated.toNat ++ ", calculated " ++
      Text.hexPadded 8 calculated.toNat
  | .tablePastEnd start =>
    "Table at " ++ Text.hex start.toNat ++ " runs past the end of the image"
  | .chunkPastEnd index => "Chunk " ++ toString index ++ " data runs past the end of the image"
  | .chunkChecksum index owner =>
    "Chunk " ++ toString index ++ " CRC mismatch (owner " ++ toString owner.toNat ++ ")"
  | .overflow => "attempt to add with overflow"

/-- The records of a file, without those that end the tables. -/
structure Summary where
  header : Header
  chunks : List ChunkRecord
  zeroed : List ZeroRecord
  deriving DecidableEq

/-- The records of a table up to the one that ends it, read from the bytes that a file has from a
position on. The table itself starts at `start`. -/
def readRecords
    {α : Type}
    (codec : Codec α)
    (ends : α → Bool)
    (start : UInt64)
    (position : Nat)
    (bytes : Bytes) :
    Except Fault (List α) :=
  if UInt64.size ≤ position + codec.width then
    .error .overflow
  else if _room : 0 < codec.width ∧ codec.width ≤ bytes.length then
    let record := codec.decode (bytes.take codec.width)
    if ends record then .ok []
    else
      (readRecords codec ends start (position + codec.width) (bytes.drop codec.width)).map
        (record :: ·)
  else
    .error (.tablePastEnd start)
termination_by bytes.length
decreasing_by
  rw [List.length_drop]
  omega

/-- The records of the table at an offset of a file. -/
def readTable
    {α : Type}
    (codec : Codec α)
    (ends : α → Bool)
    (file : Bytes)
    (start : UInt64) :
    Except Fault (List α) :=
  readRecords codec ends start start.toNat (file.drop start.toNat)

/-- Refuse a chunk whose data is not there or has another checksum. -/
def checkChunk (file : Bytes) (index : Nat) (record : ChunkRecord) : Except Fault Unit :=
  match file.slice? record.position.toNat record.size.toNat with
  | none => .error (.chunkPastEnd index)
  | some data =>
    if Crc32.checksum data = record.checksum then .ok ()
    else .error (.chunkChecksum index record.owner)

/-- Refuse the first chunk, counted from `index`, that is not right. -/
def checkChunks (file : Bytes) : Nat → List ChunkRecord → Except Fault Unit
  | _, [] => .ok ()
  | index, record :: rest => do
    checkChunk file index record
    checkChunks file (index + 1) rest

/-- The header at the start of a file that has room for one. -/
def headerOf (file : Bytes) : Header :=
  Header.codec.decode (file.take Header.size)

def inspect (file : Bytes) : Except Fault Summary := do
  if file.length < Header.size then
    throw .tooSmall
  let header := headerOf file
  if header.ownChecksum ≠ header.checksum then
    throw (.headerChecksum header.checksum header.ownChecksum)
  let chunks ← readTable ChunkRecord.codec ChunkRecord.ends file header.chunkTable
  let zeroed ← readTable ZeroRecord.codec ZeroRecord.ends file header.zeroTable
  checkChunks file 0 chunks
  pure ⟨header, chunks, zeroed⟩

/-- What is said of a file that starts with another number than image files do. -/
def inspectionNotes (file : Bytes) : Transcript :=
  let magic := (headerOf file).magic
  if file.length < Header.size ∨ magic = Header.expectedMagic then []
  else
    [.warn
      ("Does not look like a valid boot image (expected magic " ++
        Text.hexDigits Header.expectedMagic.toNat ++ ", got " ++ Text.hexDigits magic.toNat ++
        ")")]

end HartBoot.ImageFile
