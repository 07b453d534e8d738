import HartBoot.Proofs.ImageFile.Acceptance

/-!
Contract: everything in an image file is where its records say.

Owns:
- `write`, a file put together from front to back: the position of each chunk is a running sum, and
  what is filled up is always the whole of what has been written; it is the file of the plan;
- `assemble_eq_pieces`, the file as its header, the entries of its tables, the zeros behind each
  table, and the data of each chunk with the zeros behind it;
- `Located`, the agreement of all positions in the records with the lengths of what stands in front,
  and the order of the data of the chunks.

Chunks without data and regions of no size are allowed here. As in
`HartBoot.Proofs.ImageFile.RoundTrip`, a file has to be shorter than the address space for its
positions to be words.

Does not own: what a reader makes of such a file.
-/

namespace HartBoot.ImageFile

/-! ## Writing from front to back -/

/-- The start of a file, and where the data of the next chunk is going to be. -/
structure Progress where
  file : Bytes
  position : Nat

/-- Write the record of a chunk. -/
def Progress.record (progress : Progress) (chunk : Chunk) : Progress where
  file := progress.file ++
    ChunkRecord.codec.encode (ChunkRecord.ofChunk progress.position chunk)
  position := progress.position + roundUp chunk.data.length unit

/-- Leave room for the header and write the table of the chunks behind it. -/
def writeChunkTable (plan : LoadPlan) : Bytes :=
  let layout := Layout.ofPlan plan
  let start : Progress := ⟨Bytes.zeros layout.chunkTable, layout.data⟩
  let file := (plan.chunks.foldl Progress.record start).file
  Bytes.padTo (file ++ ChunkRecord.codec.encode ChunkRecord.terminator) unit

/-- Write the table of the regions of zeros behind the table of the chunks. -/
def writeTables (plan : LoadPlan) : Bytes :=
  let records := plan.zeroed.map ZeroRecord.ofRegion
  let file := records.foldl (· ++ ZeroRecord.codec.encode ·) (writeChunkTable plan)
  Bytes.padTo (file ++ ZeroRecord.codec.encode ZeroRecord.terminator) unit

/-- Write the data of a chunk, and fill the file up. -/
def writeChunk (file : Bytes) (chunk : Chunk) : Bytes :=
  Bytes.padTo (file ++ chunk.data) unit

/-- Write the tables and the data, and then the header into the room that was left for it, with the
length that the file has got and a checksum. -/
def write (image : Image) (plan : LoadPlan) : Bytes :=
  let file := plan.chunks.foldl writeChunk (writeTables plan)
  withHeader file
    { unsealedHeader image plan with imageLength := UInt64.ofNat file.length }.sealed

section Write

/-- The running sum gives each record the position that it has in the table. -/
theorem file_foldl_record (chunks : List Chunk) (progress : Progress) :
    (chunks.foldl Progress.record progress).file =
      progress.file ++
        (chunkRecords progress.position chunks).flatMap ChunkRecord.codec.encode := by
  induction chunks generalizing progress with
  | nil => exact (List.append_nil _).symm
  | cons chunk chunks inductionHypothesis =>
    rw [List.foldl_cons, inductionHypothesis, chunkRecords, List.flatMap_cons,
      ← List.append_assoc]
    rfl

theorem length_padTo_mod (bytes : Bytes) : (bytes.padTo unit).length % unit = 0 := by
  rw [Bytes.length_padTo]
  exact roundUp_mod _ unit (by decide)

theorem length_chunkTable_mod (plan : LoadPlan) : (chunkTable plan).length % unit = 0 :=
  length_padTo_mod _

theorem length_zeroTable_mod (plan : LoadPlan) : (zeroTable plan).length % unit = 0 :=
  length_padTo_mod _

theorem writeChunkTable_eq (plan : LoadPlan) :
    writeChunkTable plan = Bytes.zeros Header.size ++ chunkTable plan := by
  have room : (Bytes.zeros Header.size).length % unit = 0 := by
    rw [Bytes.length_zeros]
    rfl
  rw [chunkTable, ← Bytes.padTo_append room, List.flatMap_append, List.flatMap_singleton,
    ← List.append_assoc]
  rw [writeChunkTable, file_foldl_record]
  rfl

theorem writeTables_eq (plan : LoadPlan) :
    writeTables plan = Bytes.zeros Header.size ++ (chunkTable plan ++ zeroTable plan) := by
  have room : (Bytes.zeros Header.size ++ chunkTable plan).length % unit = 0 := by
    rw [List.length_append, Bytes.length_zeros, Nat.add_mod, length_chunkTable_mod]
    rfl
  rw [← List.append_assoc, zeroTable, ← Bytes.padTo_append room, List.flatMap_append,
    List.flatMap_singleton, ← List.append_assoc]
  rw [writeTables, writeChunkTable_eq, List.foldl_append_eq_append, List.flatMap_def]

/-- The tables end where the data was expected to start. -/
theorem length_writeTables (plan : LoadPlan) :
    (writeTables plan).length = (Layout.ofPlan plan).data := by
  rw [writeTables_eq, layout_data, List.length_append, List.length_append, Bytes.length_zeros,
    Nat.add_assoc]

/-- Data that is written behind a file that fills its units is filled up on its own. -/
theorem foldl_writeChunk {file : Bytes} (aligned : file.length % unit = 0) (chunks : List Chunk) :
    chunks.foldl writeChunk file = file ++ chunks.flatMap fun chunk => chunk.data.padTo unit := by
  induction chunks generalizing file with
  | nil => exact (List.append_nil _).symm
  | cons chunk chunks inductionHypothesis =>
    have next : (writeChunk file chunk).length % unit = 0 := length_padTo_mod _
    rw [List.foldl_cons, inductionHypothesis next, writeChunk, Bytes.padTo_append aligned,
      List.flatMap_cons, List.append_assoc]

theorem data_mod (plan : LoadPlan) : (Layout.ofPlan plan).data % unit = 0 := by
  have chunks := length_chunkTable_mod plan
  have zeroed := length_zeroTable_mod plan
  rw [layout_data]
  unfold unit at chunks zeroed ⊢
  unfold Header.size
  omega

/-- What is written from front to back is the file of the plan. -/
theorem write_eq_assemble (image : Image) (plan : LoadPlan) :
    write image plan = assemble image plan := by
  have aligned : (writeTables plan).length % unit = 0 := by
    rw [length_writeTables]
    exact data_mod plan
  have file : plan.chunks.foldl writeChunk (writeTables plan) =
      Bytes.zeros Header.size ++ body plan := by
    rw [foldl_writeChunk aligned, writeTables_eq, body, chunkData]
    simp only [List.append_assoc]
  have length : (Bytes.zeros Header.size ++ body plan).length =
      (Layout.ofPlan plan).chunkTable + (body plan).length := by
    rw [List.length_append, Bytes.length_zeros]
    rfl
  rw [write, file, length, withHeader, List.drop_left' (Bytes.length_zeros _), assemble,
    padTo_encode_header]
  rfl

end Write

/-! ## The pieces of a file -/

/-- The entries of the table of the chunks, one for each chunk. -/
def chunkEntries (plan : LoadPlan) : Bytes :=
  (chunkRecords (Layout.ofPlan plan).data plan.chunks).flatMap ChunkRecord.codec.encode

/-- The entries of the table of the regions of zeros, one for each region. -/
def zeroEntries (plan : LoadPlan) : Bytes :=
  (plan.zeroed.map ZeroRecord.ofRegion).flatMap ZeroRecord.codec.encode

/-- The data of chunks, each followed by zeros. -/
def filledData (chunks : List Chunk) : Bytes :=
  chunks.flatMap fun chunk =>
    chunk.data ++ Bytes.zeros (paddingFor chunk.data.length unit)

/-- If the entry that ends a table consists of zeros, and entries fill their units, then nothing has
to be added behind the table. -/
theorem padTo_table
    {α : Type}
    {codec : Codec α}
    {terminator : α}
    (aligned : codec.width % unit = 0)
    (blank : codec.encode terminator = Bytes.zeros codec.width)
    (records : List α) :
    Bytes.padTo ((records ++ [terminator]).flatMap codec.encode) unit =
      records.flatMap codec.encode ++ Bytes.zeros codec.width := by
  have filled : ((records ++ [terminator]).flatMap codec.encode).length % unit = 0 := by
    rw [length_flatMap_encode, Nat.mul_mod, aligned, Nat.zero_mul]
    rfl
  rw [Bytes.padTo_of_aligned filled, List.flatMap_append, List.flatMap_singleton, blank]

theorem length_table {α : Type} (codec : Codec α) (records : List α) :
    (records.flatMap codec.encode ++ Bytes.zeros codec.width).length =
      (records.length + 1) * codec.width := by
  rw [List.length_append, length_flatMap_encode, Bytes.length_zeros, Nat.succ_mul, Nat.mul_comm]

theorem chunkTable_eq_entries (plan : LoadPlan) :
    chunkTable plan = chunkEntries plan ++ Bytes.zeros ChunkRecord.width :=
  padTo_table (by decide) rfl _

theorem zeroTable_eq_entries (plan : LoadPlan) :
    zeroTable plan = zeroEntries plan ++ Bytes.zeros ZeroRecord.width :=
  padTo_table (by decide) rfl _

/-- Everything in front of the table of the regions of zeros. -/
def chunkFront (image : Image) (plan : LoadPlan) : Bytes :=
  Header.codec.encode (header image plan) ++ chunkEntries plan ++ Bytes.zeros ChunkRecord.width

/-- Everything in front of the data. -/
def frontMatter (image : Image) (plan : LoadPlan) : Bytes :=
  chunkFront image plan ++ zeroEntries plan ++ Bytes.zeros ZeroRecord.width

theorem assemble_eq_pieces (image : Image) (plan : LoadPlan) :
    assemble image plan = frontMatter image plan ++ filledData plan.chunks := by
  rw [assemble_eq_regions, chunkTable_eq_entries, zeroTable_eq_entries, frontMatter, chunkFront]
  simp only [List.append_assoc]
  rfl

theorem length_chunkFront (image : Image) (plan : LoadPlan) :
    (chunkFront image plan).length = (Layout.ofPlan plan).zeroTable := by
  rw [layout_zeroTable, chunkFront, List.append_assoc, ← chunkTable_eq_entries,
    List.length_append, length_encode_header]

theorem length_frontMatter (image : Image) (plan : LoadPlan) :
    (frontMatter image plan).length = (Layout.ofPlan plan).data := by
  rw [layout_data, ← layout_zeroTable, frontMatter, List.append_assoc, ← zeroTable_eq_entries,
    List.length_append, length_chunkFront]

theorem filledData_cons (chunk : Chunk) (chunks : List Chunk) :
    filledData (chunk :: chunks) = chunk.data.padTo unit ++ filledData chunks :=
  rfl

theorem filledData_append (before after : List Chunk) :
    filledData (before ++ after) = filledData before ++ filledData after :=
  List.flatMap_append

theorem length_filledData_mod (chunks : List Chunk) : (filledData chunks).length % unit = 0 := by
  induction chunks with
  | nil => rfl
  | cons chunk chunks inductionHypothesis =>
    rw [filledData_cons, List.length_append, Nat.add_mod, length_padTo_mod, inductionHypothesis]
    rfl

/-! ## Where the data of the chunks is -/

section Records

variable {image : Image} {plan : LoadPlan} {before after : List Chunk} {chunk : Chunk}

theorem dataStart_eq (plan : LoadPlan) (before : List Chunk) :
    dataStart plan before = (Layout.ofPlan plan).data + (filledData before).length :=
  rfl

theorem length_front_filledData (image : Image) (plan : LoadPlan) (before : List Chunk) :
    (frontMatter image plan ++ filledData before).length = dataStart plan before := by
  rw [List.length_append, length_frontMatter, dataStart_eq]

/-- The record of a chunk in the table. -/
theorem getElem?_chunkRecords (split : plan.chunks = before ++ chunk :: after) :
    (chunkRecords (Layout.ofPlan plan).data plan.chunks)[before.length]? =
      some (ChunkRecord.ofChunk (dataStart plan before) chunk) := by
  have records := length_chunkRecords (Layout.ofPlan plan).data before
  rw [split, chunkRecords_append, List.getElem?_append_right (Nat.le_of_eq records), records,
    Nat.sub_self]
  rfl

/-- Every record in the table is the one of a chunk. -/
theorem exists_chunk_of_mem_chunkRecords
    {record : ChunkRecord}
    (member : record ∈ chunkRecords (Layout.ofPlan plan).data plan.chunks) :
    ∃ before chunk after, plan.chunks = before ++ chunk :: after ∧
      record = ChunkRecord.ofChunk (dataStart plan before) chunk := by
  obtain ⟨index, found⟩ := List.mem_iff_getElem?.mp member
  have inside : index < plan.chunks.length := by
    rw [← length_chunkRecords (Layout.ofPlan plan).data plan.chunks]
    exact (List.getElem?_eq_some_iff.mp found).1
  have split : plan.chunks =
      plan.chunks.take index ++ plan.chunks[index] :: plan.chunks.drop (index + 1) := by
    rw [List.getElem_cons_drop, List.take_append_drop]
  have own := getElem?_chunkRecords split
  rw [List.length_take_of_le (Nat.le_of_lt inside), found] at own
  exact ⟨_, _, _, split, Option.some.inj own⟩

/-- The record of a chunk tells the chunk, and its data is where the record says. -/
theorem ofChunk_dataStart_describes
    (small : (assemble image plan).length < UInt64.size)
    (split : plan.chunks = before ++ chunk :: after) :
    (ChunkRecord.ofChunk (dataStart plan before) chunk).Describes (assemble image plan) chunk := by
  obtain ⟨front, rest, shape, start⟩ := assemble_around_data image split
  rw [shape] at small ⊢
  rw [← start]
  exact ChunkRecord.ofChunk_describes small

theorem dataEnd_le
    (image : Image)
    (split : plan.chunks = before ++ chunk :: after) :
    dataStart plan before + chunk.data.length ≤ (assemble image plan).length := by
  obtain ⟨front, rest, shape, start⟩ := assemble_around_data image split
  rw [shape, List.length_append, List.length_append, start]
  omega

theorem position_ofChunk_dataStart
    (small : (assemble image plan).length < UInt64.size)
    (split : plan.chunks = before ++ chunk :: after) :
    (ChunkRecord.ofChunk (dataStart plan before) chunk).position.toNat = dataStart plan before := by
  have room := dataEnd_le image split
  apply toNat_ofNat_of_lt
  omega

/-- The data of each chunk ends before the data of the next one starts. The bound on the positions
is what the first record needs of the others. -/
theorem chunkRecords_ordered
    {start : Nat}
    {chunks : List Chunk}
    (small : start + (filledData chunks).length < UInt64.size) :
    (∀ record ∈ chunkRecords start chunks, start ≤ record.position.toNat) ∧
      (chunkRecords start chunks).Pairwise fun first second =>
        first.position.toNat + first.size.toNat ≤ second.position.toNat := by
  induction chunks generalizing start with
  | nil => exact ⟨fun _ member => absurd member List.not_mem_nil, .nil⟩
  | cons chunk chunks inductionHypothesis =>
    have filled : (filledData (chunk :: chunks)).length =
        roundUp chunk.data.length unit + (filledData chunks).length := by
      rw [filledData_cons, List.length_append, Bytes.length_padTo]
    have grows : chunk.data.length ≤ roundUp chunk.data.length unit := Nat.le_add_right _ _
    rw [filled, ← Nat.add_assoc] at small
    have position : (ChunkRecord.ofChunk start chunk).position.toNat = start :=
      toNat_ofNat_of_lt (by omega)
    have size : (ChunkRecord.ofChunk start chunk).size.toNat = chunk.data.length :=
      toNat_ofNat_of_lt (by omega)
    obtain ⟨behind, ordered⟩ := inductionHypothesis small
    rw [chunkRecords]
    refine ⟨?_, .cons ?_ ordered⟩
    · intro record member
      rcases List.mem_cons.mp member with rfl | later
      · exact Nat.le_of_eq position.symm
      · exact Nat.le_trans (Nat.le_add_right _ _) (behind record later)
    · intro record later
      have next := behind record later
      rw [position, size]
      omega

end Records

/-! ## The law of places -/

/-- Every position in the records of a file. -/
def positions (image : Image) (plan : LoadPlan) : List UInt64 :=
  let start := header image plan
  [start.chunkTable, start.zeroTable, start.headerLength, start.imageLength] ++
    (summaryOf image plan).chunks.map ChunkRecord.position

/-- The records of a file tell where everything in it is. -/
structure Located (image : Image) (plan : LoadPlan) : Prop where
  /-- The table of the chunks starts behind the header. -/
  chunkTable : (header image plan).chunkTable.toNat =
    (Header.codec.encode (header image plan)).length
  zeroTable : (header image plan).zeroTable.toNat = (chunkFront image plan).length
  data : (header image plan).headerLength.toNat = (frontMatter image plan).length
  imageLength : (header image plan).imageLength.toNat = (assemble image plan).length
  /-- The record of a chunk has the index of the chunk, and its position is behind the data of the
  chunks in front of it. -/
  chunks : ∀ before chunk after, plan.chunks = before ++ chunk :: after →
    ∃ record, (summaryOf image plan).chunks[before.length]? = some record ∧
      record.Describes (assemble image plan) chunk ∧
      record.position.toNat = (frontMatter image plan ++ filledData before).length
  aligned : ∀ position ∈ positions image plan, position.toNat % unit = 0
  /-- The data is in the order of the records, and the data of two chunks has no byte in common. -/
  ordered : (summaryOf image plan).chunks.Pairwise fun first second =>
    first.position.toNat + first.size.toNat ≤ second.position.toNat
  /-- No data reaches into the header or a table, or behind the end of the file. -/
  inside : ∀ record ∈ (summaryOf image plan).chunks,
    (header image plan).headerLength.toNat ≤ record.position.toNat ∧
      record.position.toNat + record.size.toNat ≤ (header image plan).imageLength.toNat

section Located

variable {image : Image} {plan : LoadPlan}

theorem data_add_length_filledData (image : Image) (plan : LoadPlan) :
    (Layout.ofPlan plan).data + (filledData plan.chunks).length =
      (assemble image plan).length :=
  (length_assemble image plan).symm

theorem toNat_chunkTable (image : Image) (plan : LoadPlan) :
    (header image plan).chunkTable.toNat = Header.size :=
  rfl

theorem toNat_zeroTable (small : (assemble image plan).length < UInt64.size) :
    (header image plan).zeroTable.toNat = (Layout.ofPlan plan).zeroTable := by
  rw [length_assemble, layout_data, ← layout_zeroTable] at small
  apply toNat_ofNat_of_lt
  omega

theorem toNat_headerLength (small : (assemble image plan).length < UInt64.size) :
    (header image plan).headerLength.toNat = (Layout.ofPlan plan).data := by
  rw [length_assemble] at small
  apply toNat_ofNat_of_lt
  omega

theorem toNat_imageLength (small : (assemble image plan).length < UInt64.size) :
    (header image plan).imageLength.toNat = (assemble image plan).length := by
  have length : (assemble image plan).length =
      (Layout.ofPlan plan).chunkTable + (body plan).length := by
    rw [assemble, List.length_append, padTo_encode_header, length_encode_header]
    rfl
  change (UInt64.ofNat ((Layout.ofPlan plan).chunkTable + (body plan).length)).toNat = _
  rw [← length]
  exact toNat_ofNat_of_lt small

/-- Each table ends where the next region starts. -/
theorem chunkTable_end (image : Image) (plan : LoadPlan) :
    (summaryOf image plan).header.chunkTable.toNat +
      ((summaryOf image plan).chunks.length + 1) * ChunkRecord.width =
        (Layout.ofPlan plan).zeroTable := by
  have length : (chunkTable plan).length =
      ((summaryOf image plan).chunks.length + 1) * ChunkRecord.width := by
    rw [chunkTable_eq_entries]
    exact length_table ChunkRecord.codec _
  rw [layout_zeroTable, length]
  rfl

theorem zeroTable_end (small : (assemble image plan).length < UInt64.size) :
    (summaryOf image plan).header.zeroTable.toNat +
      ((summaryOf image plan).zeroed.length + 1) * ZeroRecord.width =
        (Layout.ofPlan plan).data := by
  have length : (zeroTable plan).length =
      ((summaryOf image plan).zeroed.length + 1) * ZeroRecord.width := by
    rw [zeroTable_eq_entries]
    exact length_table ZeroRecord.codec _
  rw [layout_data, ← layout_zeroTable, length, ← toNat_zeroTable small]
  rfl

/-- Every position is a multiple of the unit. -/
theorem positions_aligned (small : (assemble image plan).length < UInt64.size) :
    ∀ position ∈ positions image plan, position.toNat % unit = 0 := by
  have data := data_mod plan
  have filled := length_filledData_mod plan.chunks
  have zeroTable : (Layout.ofPlan plan).zeroTable % unit = 0 := by
    rw [layout_zeroTable, Nat.add_mod, length_chunkTable_mod]
    rfl
  have imageLength : (assemble image plan).length % unit = 0 := by
    rw [← data_add_length_filledData, Nat.add_mod, data, filled]
    rfl
  simp only [positions, List.forall_mem_append, List.forall_mem_cons, List.forall_mem_map]
  refine ⟨⟨?_, ?_, ?_, ?_, fun _ member => absurd member List.not_mem_nil⟩, ?_⟩
  · rw [toNat_chunkTable]
    rfl
  · rwa [toNat_zeroTable small]
  · rwa [toNat_headerLength small]
  · rwa [toNat_imageLength small]
  · intro record member
    obtain ⟨before, chunk, after, split, rfl⟩ := exists_chunk_of_mem_chunkRecords member
    rw [position_ofChunk_dataStart small split, dataStart_eq, Nat.add_mod, data,
      length_filledData_mod]
    rfl

theorem located (small : (assemble image plan).length < UInt64.size) : Located image plan where
  chunkTable := (toNat_chunkTable image plan).trans (length_encode_header _).symm
  zeroTable := (toNat_zeroTable small).trans (length_chunkFront image plan).symm
  data := (toNat_headerLength small).trans (length_frontMatter image plan).symm
  imageLength := toNat_imageLength small
  chunks := by
    intro before chunk after split
    refine ⟨_, getElem?_chunkRecords split, ofChunk_dataStart_describes small split, ?_⟩
    rw [length_front_filledData, position_ofChunk_dataStart small split]
  aligned := positions_aligned small
  ordered := by
    rw [← data_add_length_filledData image plan] at small
    exact (chunkRecords_ordered small).2
  inside := by
    intro record member
    obtain ⟨before, chunk, after, split, rfl⟩ := exists_chunk_of_mem_chunkRecords member
    have room := dataEnd_le image split
    rw [toNat_headerLength small, toNat_imageLength small, position_ofChunk_dataStart small split,
      (ofChunk_dataStart_describes small split).size]
    exact ⟨Nat.le_add_right _ _, room⟩

end Located

/-- A file that is written from front to back is the header, the entries of the two tables, each
table followed by an entry of zeros, and the data of each chunk followed by less than eight zeros.
The tables end where the data was expected to start, and every position in the records is where
things are. -/
theorem assemble_laidOut (image : Image) (plan : LoadPlan) :
    write image plan = assemble image plan ∧
      (writeTables plan).length = (Layout.ofPlan plan).data ∧
      assemble image plan =
        Header.codec.encode (header image plan) ++ chunkEntries plan ++
          Bytes.zeros ChunkRecord.width ++ zeroEntries plan ++ Bytes.zeros ZeroRecord.width ++
          plan.chunks.flatMap (fun chunk =>
            chunk.data ++ Bytes.zeros (paddingFor chunk.data.length unit)) ∧
      (∀ chunk ∈ plan.chunks, paddingFor chunk.data.length unit < 8) ∧
      ((assemble image plan).length < UInt64.size → Located image plan) :=
  ⟨write_eq_assemble image plan, length_writeTables plan, assemble_eq_pieces image plan,
    fun chunk _ => paddingFor_lt chunk.data.length unit (by decide), located⟩

/-- A chunk of three bytes in front of an empty one, a chunk of one byte behind it, and a region of
no size. -/
theorem assemble_laidOut_emptyChunk :
    let plan : LoadPlan :=
      { chunks := [⟨.u54_2, 0x80200000, [0x11, 0x22, 0x33]⟩, ⟨.u54_1, 0x80300000, []⟩,
          ⟨.u54_1, 0x80400000, [0x44]⟩]
        zeroed := [⟨.u54_2, 0x80500000, 0⟩] }
    (assemble Image.initial plan).length < UInt64.size ∧ Located Image.initial plan := by
  intro plan
  have small : (assemble Image.initial plan).length < UInt64.size := by
    rw [length_assemble]
    decide
  exact ⟨small, (assemble_laidOut Image.initial plan).2.2.2.2 small⟩

end HartBoot.ImageFile
