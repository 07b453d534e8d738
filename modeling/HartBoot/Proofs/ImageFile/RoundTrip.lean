import HartBoot.Proofs.ImageFile.Inspection
import HartBoot.Proofs.ImageFile.Layout
import HartBoot.Proofs.ImageFile.Table
import HartBoot.Proofs.LoadPlan.Loadable
import HartBoot.Proofs.LoadPlan.Share
import HartBoot.Proofs.NameBuffer
import Mathlib.Data.List.Forall2

/-!
Contract: an image file gives back what it was made from.

Owns:
- `inspect_assemble`, the records that are read from a file;
- the `Describes` relations, which say what a record tells about a chunk, a region or a hart, and
  `Summary.Describes`, what the records of a file tell about an image and a plan;
- the law of the file: its records tell all of it.

A file has to be shorter than the address space, as every byte string in memory is: its offsets
and sizes are words of eight bytes.

Does not own: what a file that was not made here holds.
-/

namespace HartBoot.ImageFile

/-! ## The header -/

theorem ownChecksum_sealed (start : Header) : start.sealed.ownChecksum = start.sealed.checksum :=
  rfl

theorem headerOf_assemble (image : Image) (plan : LoadPlan) :
    headerOf (assemble image plan) = header image plan := by
  rw [headerOf, assemble_eq_regions, List.take_left' (length_encode_header _),
    Header.codec.decode_encode]

/-- A number below the limit of eight bytes is written as it is. -/
theorem toNat_ofNat_of_lt {number : Nat} (small : number < UInt64.size) :
    (UInt64.ofNat number).toNat = number :=
  UInt64.toNat_ofNat_of_lt' small

/-! ## The chunks -/

/-- A record tells where a chunk goes and where its data stands in a file. -/
structure ChunkRecord.Describes (file : Bytes) (record : ChunkRecord) (chunk : Chunk) : Prop where
  owner : record.owner = chunk.owner.number
  address : record.address = chunk.address
  size : record.size.toNat = chunk.data.length
  data : file.slice? record.position.toNat record.size.toNat = some chunk.data
  checksum : record.checksum = chunk.checksum

/-- The record that is made for a chunk describes it in a file that has the data in its place. -/
theorem ChunkRecord.ofChunk_describes
    {front rest : Bytes}
    {chunk : Chunk}
    (small : (front ++ (chunk.data ++ rest)).length < UInt64.size) :
    (ChunkRecord.ofChunk front.length chunk).Describes (front ++ (chunk.data ++ rest)) chunk := by
  simp only [List.length_append] at small
  have position : (UInt64.ofNat front.length).toNat = front.length :=
    toNat_ofNat_of_lt (by omega)
  have size : (UInt64.ofNat chunk.data.length).toNat = chunk.data.length :=
    toNat_ofNat_of_lt (by omega)
  refine ⟨rfl, rfl, size, ?_, rfl⟩
  change Bytes.slice? _ (UInt64.ofNat front.length).toNat (UInt64.ofNat chunk.data.length).toNat = _
  rw [position, size]
  exact Bytes.slice?_append front chunk.data rest

/-- The records that are made for chunks describe them, one by one, in a file that has the data of
all of them from some place on. -/
theorem chunkRecords_describe
    {front : Bytes}
    {chunks : List Chunk}
    (small : (front ++ chunks.flatMap fun chunk => chunk.data.padTo unit).length < UInt64.size) :
    List.Forall₂
      (ChunkRecord.Describes (front ++ chunks.flatMap fun chunk => chunk.data.padTo unit))
      (chunkRecords front.length chunks) chunks := by
  induction chunks generalizing front with
  | nil => exact .nil
  | cons chunk chunks inductionHypothesis =>
    let rest := chunks.flatMap fun other => other.data.padTo unit
    let padding := Bytes.zeros (paddingFor chunk.data.length unit)
    have firstShape :
        front ++ (chunk :: chunks).flatMap (fun other => other.data.padTo unit) =
          front ++ (chunk.data ++ (padding ++ rest)) := by
      simp only [List.flatMap_cons, Bytes.padTo, List.append_assoc, padding, rest]
    have restShape :
        front ++ (chunk :: chunks).flatMap (fun other => other.data.padTo unit) =
          (front ++ chunk.data.padTo unit) ++ rest := by
      simp only [List.flatMap_cons, List.append_assoc, rest]
    have next : (front ++ chunk.data.padTo unit).length =
        front.length + roundUp chunk.data.length unit := by
      rw [List.length_append, Bytes.length_padTo]
    rw [chunkRecords]
    constructor
    · rw [firstShape] at small ⊢
      exact ChunkRecord.ofChunk_describes small
    · rw [restShape] at small ⊢
      rw [← next]
      exact inductionHypothesis small

/-- The record of a chunk with data does not end the table. -/
theorem ChunkRecord.Describes.ends_eq_false
    {file : Bytes}
    {record : ChunkRecord}
    {chunk : Chunk}
    (described : record.Describes file chunk)
    (filled : chunk.data ≠ []) :
    record.ends = false := by
  have positive := List.length_pos_iff.mpr filled
  rw [← described.size] at positive
  rw [ChunkRecord.ends, beq_eq_false_iff_ne]
  intro zero
  rw [zero] at positive
  exact absurd positive (Nat.lt_irrefl 0)

theorem checkChunks_of_describes
    {file : Bytes}
    {records : List ChunkRecord}
    {chunks : List Chunk}
    (described : List.Forall₂ (ChunkRecord.Describes file) records chunks)
    (index : Nat) :
    checkChunks file index records = .ok () := by
  induction described generalizing index with
  | nil => rfl
  | cons first _ inductionHypothesis =>
    refine checkChunks_cons_eq_ok_iff.mpr ⟨?_, inductionHypothesis (index + 1)⟩
    rw [checkChunk, first.data, first.checksum]
    exact if_pos rfl

theorem ends_eq_false_of_describes
    {file : Bytes}
    {records : List ChunkRecord}
    {chunks : List Chunk}
    (described : List.Forall₂ (ChunkRecord.Describes file) records chunks)
    (filled : ∀ chunk ∈ chunks, chunk.data ≠ []) :
    ∀ record ∈ records, record.ends = false := by
  induction described with
  | nil => exact fun _ member => absurd member List.not_mem_nil
  | cons first _ inductionHypothesis =>
    intro record member
    rcases List.mem_cons.mp member with rfl | behind
    · exact first.ends_eq_false (filled _ List.mem_cons_self)
    · exact inductionHypothesis (fun chunk inside => filled chunk (List.mem_cons_of_mem _ inside))
        record behind

/-! ## The whole file -/

/-- The records that a file is written from. -/
def summaryOf (image : Image) (plan : LoadPlan) : Summary where
  header := header image plan
  chunks := chunkRecords (Layout.ofPlan plan).data plan.chunks
  zeroed := plan.zeroed.map ZeroRecord.ofRegion

section File

variable {image : Image} {plan : LoadPlan}

theorem assemble_describes_chunks (small : (assemble image plan).length < UInt64.size) :
    List.Forall₂ (ChunkRecord.Describes (assemble image plan))
      (chunkRecords (Layout.ofPlan plan).data plan.chunks) plan.chunks := by
  let front := Header.codec.encode (header image plan) ++ (chunkTable plan ++ zeroTable plan)
  have shape : assemble image plan = front ++ chunkData plan := by
    rw [assemble_eq_regions]
    simp only [front, List.append_assoc]
  have data : (Layout.ofPlan plan).data = front.length := by
    rw [layout_data]
    simp only [front, List.length_append, length_encode_header]
    omega
  rw [shape] at small ⊢
  rw [data]
  exact chunkRecords_describe small

theorem readTable_chunks
    (loadable : plan.Loadable)
    (small : (assemble image plan).length < UInt64.size) :
    readTable ChunkRecord.codec ChunkRecord.ends (assemble image plan)
        (header image plan).chunkTable =
      .ok (chunkRecords (Layout.ofPlan plan).data plan.chunks) := by
  have goesOn :=
    ends_eq_false_of_describes (assemble_describes_chunks small) loadable.chunks
  obtain ⟨rest, placed⟩ : ∃ rest,
      assemble image plan =
        Header.codec.encode (header image plan) ++
          ((chunkRecords (Layout.ofPlan plan).data plan.chunks ++
              [ChunkRecord.terminator]).flatMap ChunkRecord.codec.encode ++ rest) := by
    rw [assemble_eq_regions, chunkTable, Bytes.padTo, List.append_assoc]
    exact ⟨_, rfl⟩
  have starts :
      (header image plan).chunkTable.toNat =
        (Header.codec.encode (header image plan)).length := by
    rw [length_encode_header]
    rfl
  exact readTable_written (by decide) goesOn (by decide) placed starts small

theorem readTable_zeroed
    (loadable : plan.Loadable)
    (small : (assemble image plan).length < UInt64.size) :
    readTable ZeroRecord.codec ZeroRecord.ends (assemble image plan)
        (header image plan).zeroTable =
      .ok (plan.zeroed.map ZeroRecord.ofRegion) := by
  have goesOn : ∀ record ∈ plan.zeroed.map ZeroRecord.ofRegion, record.ends = false := by
    intro record member
    obtain ⟨region, inside, rfl⟩ := List.mem_map.mp member
    exact beq_eq_false_iff_ne.mpr (loadable.zeroed region inside)
  obtain ⟨rest, placed⟩ : ∃ rest,
      assemble image plan =
        (Header.codec.encode (header image plan) ++ chunkTable plan) ++
          ((plan.zeroed.map ZeroRecord.ofRegion ++
              [ZeroRecord.terminator]).flatMap ZeroRecord.codec.encode ++ rest) := by
    rw [assemble_eq_regions, zeroTable, Bytes.padTo, List.append_assoc]
    exact ⟨_, (List.append_assoc _ _ _).symm⟩
  have starts :
      (header image plan).zeroTable.toNat =
        (Header.codec.encode (header image plan) ++ chunkTable plan).length := by
    rw [List.length_append, length_encode_header, ← layout_zeroTable]
    refine toNat_ofNat_of_lt ?_
    rw [length_assemble, layout_data, ← layout_zeroTable] at small
    omega
  exact readTable_written (by decide) goesOn (by decide) placed starts small

/-- The records of a file are those that were written. -/
theorem inspect_assemble
    (loadable : plan.Loadable)
    (small : (assemble image plan).length < UInt64.size) :
    inspect (assemble image plan) = .ok (summaryOf image plan) := by
  have room : Header.size ≤ (assemble image plan).length := by
    rw [length_assemble, layout_data]
    omega
  rw [inspect_eq_ok_iff, headerOf_assemble]
  exact ⟨room, rfl, ownChecksum_sealed _, readTable_chunks loadable small,
    readTable_zeroed loadable small,
    checkChunks_of_describes (assemble_describes_chunks small) 0⟩

end File

/-! ## What the records tell -/

/-- A record tells which memory is cleared. -/
structure ZeroRecord.Describes (record : ZeroRecord) (region : ZeroRegion) : Prop where
  owner : record.owner = region.owner.number
  address : record.address = region.address
  size : record.size = region.size

/-- A record tells the settings of a hart and where its chunks stand among all chunks. -/
structure HartRecord.Describes
    (record : HartRecord)
    (settings : HartSettings)
    (share : LoadPlan.Share) : Prop where
  entry : record.entry = settings.entry.getD 0
  privilege : Privilege.ofCode? record.privilege = some settings.privilege
  flags : record.flags = settings.flags.bits
  knownFlags : BootFlags.ofBits record.flags = settings.flags
  chunkCount : record.chunkCount.toNat = share.count
  firstChunk : record.firstChunk.toNat = share.first
  lastChunk : record.lastChunk.toNat = share.last
  name : Name.read record.name.bytes = settings.name.visible

/-- The records of a file tell everything about an image and a plan: there is one for each chunk
and for each region of zeros, in their order, and one for each hart. -/
structure Summary.Describes
    (summary : Summary)
    (file : Bytes)
    (image : Image)
    (plan : LoadPlan) : Prop where
  chunks : List.Forall₂ (ChunkRecord.Describes file) summary.chunks plan.chunks
  zeroed : List.Forall₂ ZeroRecord.Describes summary.zeroed plan.zeroed
  harts : ∀ hart,
    (summary.header.harts.get hart).Describes (image.settings hart) (plan.share hart)
  setName : Name.read summary.header.setName.bytes = image.setName.visible

theorem HartRecord.ofHart_describes
    {plan : LoadPlan}
    (small : plan.chunks.length < UInt64.size)
    (image : Image)
    (hart : Hart) :
    (HartRecord.ofHart image plan hart).Describes (image.settings hart) (plan.share hart) := by
  obtain ⟨first, last, count⟩ := plan.share_le hart
  exact {
    entry := rfl
    privilege := Privilege.ofCode?_code _
    flags := rfl
    knownFlags := BootFlags.ofBits_bits _
    chunkCount := toNat_ofNat_of_lt (Nat.lt_of_le_of_lt count small)
    firstChunk := toNat_ofNat_of_lt (Nat.lt_of_le_of_lt first small)
    lastChunk := toNat_ofNat_of_lt (Nat.lt_of_le_of_lt last small)
    name := Name.read_buffer _ }

theorem ofRegion_describes (regions : List ZeroRegion) :
    List.Forall₂ ZeroRecord.Describes (regions.map ZeroRecord.ofRegion) regions := by
  induction regions with
  | nil => exact .nil
  | cons region regions inductionHypothesis => exact .cons ⟨rfl, rfl, rfl⟩ inductionHypothesis

/-- The records that a file is written from tell everything that it was made from. -/
theorem summaryOf_describes
    {image : Image}
    {plan : LoadPlan}
    (small : (assemble image plan).length < UInt64.size) :
    (summaryOf image plan).Describes (assemble image plan) image plan := by
  have few : plan.chunks.length < UInt64.size :=
    Nat.lt_trans (length_chunks_lt image plan) small
  exact {
    chunks := assemble_describes_chunks small
    zeroed := ofRegion_describes plan.zeroed
    harts := by
      intro hart
      have record : (summaryOf image plan).header.harts.get hart =
          HartRecord.ofHart image plan hart :=
        PerHart.get_ofFn _ hart
      rw [record]
      exact HartRecord.ofHart_describes few image hart
    setName := Name.read_buffer image.setName }

/-- An image file can be read, and its records tell everything that it was made from: the owner,
address, size and data of every chunk, the owner, address and size of every region of zeros, and
the settings and names of the image. -/
theorem exists_summary_describes
    (image : Image)
    (plan : LoadPlan)
    (loadable : plan.Loadable)
    (small : (assemble image plan).length < UInt64.size) :
    ∃ summary,
      inspect (assemble image plan) = .ok summary ∧
        summary.Describes (assemble image plan) image plan :=
  ⟨summaryOf image plan, inspect_assemble loadable small, summaryOf_describes small⟩

/-- Two chunks of two harts and a region of zeros, in a file of 1664 bytes. -/
theorem exists_summary_describes_twoHarts :
    let plan : LoadPlan :=
      { chunks := [⟨.u54_2, 0x80200000, [0x11, 0x22, 0x33]⟩, ⟨.u54_1, 0x80300000, [0x44]⟩]
        zeroed := [⟨.u54_2, 0x80400000, 0x100⟩] }
    plan.Loadable ∧
      (assemble Image.initial plan).length < UInt64.size ∧
      ∃ summary,
        inspect (assemble Image.initial plan) = .ok summary ∧
          summary.Describes (assemble Image.initial plan) Image.initial plan := by
  intro plan
  have loadable : plan.Loadable :=
    ((LoadPlan.Loadable.empty.withChunk (by decide)).withChunk (by decide)).withZeroed (by decide)
  have small : (assemble Image.initial plan).length < UInt64.size := by
    rw [length_assemble]
    decide
  exact ⟨loadable, small, exists_summary_describes Image.initial plan loadable small⟩

end HartBoot.ImageFile
