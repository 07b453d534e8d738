import HartBoot.Action
import HartBoot.Crc32
import HartBoot.Hart
import HartBoot.Text.Hex

/-!
Contract: what is put into memory before the harts start.

Owns:
- `Chunk`, data for an address, and `ZeroRegion`, memory that is cleared;
- `LoadPlan`, both of them in the order in which they are written to an image;
- `LoadPlan.share`, where the chunks of one hart stand among all chunks.

A plan only grows: what was added stays in front of what is added later.

Does not own: where the data comes from (see `HartBoot.Blob` and `HartBoot.Elf.Extraction`).
-/

namespace HartBoot

/-- Data that is copied to an address before its owner starts. -/
structure Chunk where
  owner : Hart
  address : UInt64
  data : Bytes
  deriving DecidableEq, Repr

def Chunk.checksum (chunk : Chunk) : UInt32 :=
  Crc32.checksum chunk.data

/-- Memory that is cleared before its owner starts. -/
structure ZeroRegion where
  owner : Hart
  address : UInt64
  size : UInt64
  deriving DecidableEq, Repr

/-- What is put into memory before the harts start. -/
structure LoadPlan where
  chunks : List Chunk
  zeroed : List ZeroRegion
  deriving DecidableEq, Repr

namespace LoadPlan

def empty : LoadPlan := ⟨[], []⟩

def isEmpty (plan : LoadPlan) : Bool :=
  plan.chunks.isEmpty && plan.zeroed.isEmpty

def withChunk (plan : LoadPlan) (chunk : Chunk) : LoadPlan :=
  { plan with chunks := plan.chunks ++ [chunk] }

def withZeroed (plan : LoadPlan) (region : ZeroRegion) : LoadPlan :=
  { plan with zeroed := plan.zeroed ++ [region] }

/-- What is said of a chunk that is added. -/
def chunkNote (chunk : Chunk) : Note :=
  .debug
    ("chunk: owner = " ++ chunk.owner.label ++ ", exec_addr = " ++ Text.address chunk.address ++
      ", size = " ++ Text.hex chunk.data.length ++ ", CRC32 = " ++
      Text.hexDigitsPadded 8 chunk.checksum.toNat)

/-- What is said of a region of zeros that is added. -/
def zeroedNote (region : ZeroRegion) : Note :=
  .debug
    ("ZI chunk: owner = " ++ region.owner.label ++ ", exec_addr = " ++
      Text.address region.address ++ ", size = " ++ Text.hex region.size.toNat)

def addChunk {ε : Type} (chunk : Chunk) : Action LoadPlan ε Unit := do
  Action.say [chunkNote chunk]
  Action.change fun plan => plan.withChunk chunk

def addZeroed {ε : Type} (region : ZeroRegion) : Action LoadPlan ε Unit := do
  Action.say [zeroedNote region]
  Action.change fun plan => plan.withZeroed region

/-- Where the chunks of one hart stand among all chunks. -/
structure Share where
  /-- The position of the first one, zero if there is none. -/
  first : Nat
  /-- The position of the last one, zero if there is none. -/
  last : Nat
  count : Nat
  deriving DecidableEq, Repr

/-- The positions of the chunks of a hart, counted from `start`. -/
def positionsFrom (hart : Hart) : Nat → List Chunk → List Nat
  | _, [] => []
  | start, chunk :: rest =>
    if chunk.owner = hart then start :: positionsFrom hart (start + 1) rest
    else positionsFrom hart (start + 1) rest

/-- The share that some positions in ascending order make up. -/
def Share.ofPositions : List Nat → Share
  | [] => ⟨0, 0, 0⟩
  | first :: rest => ⟨first, rest.getLastD first, rest.length + 1⟩

def share (plan : LoadPlan) (hart : Hart) : Share :=
  Share.ofPositions (positionsFrom hart 0 plan.chunks)

@[simp] theorem run_addChunk {ε : Type} (chunk : Chunk) (plan : LoadPlan) :
    (addChunk chunk : Action LoadPlan ε Unit).run plan =
      ⟨[chunkNote chunk], plan.withChunk chunk, .ok ()⟩ :=
  rfl

@[simp] theorem run_addZeroed {ε : Type} (region : ZeroRegion) (plan : LoadPlan) :
    (addZeroed region : Action LoadPlan ε Unit).run plan =
      ⟨[zeroedNote region], plan.withZeroed region, .ok ()⟩ :=
  rfl

end LoadPlan

end HartBoot
