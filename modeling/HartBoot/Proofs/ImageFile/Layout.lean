import HartBoot.ImageFile.Assembly

/-!
Contract: where the regions of an image file really are.

Owns:
- `assemble_eq_regions`, the file as its header, its two tables and its data, one behind the other;
- the lengths of these regions, and with them the agreement of `Layout.ofPlan` with the file;
- `length_assemble`, the length of the file;
- `dataStart`, the place of the data of one chunk.

Does not own: what is read at these places (see `HartBoot.Proofs.ImageFile.RoundTrip`).
-/

namespace HartBoot.ImageFile

theorem length_flatMap_encode {α : Type} (codec : Codec α) (records : List α) :
    (records.flatMap codec.encode).length = codec.width * records.length := by
  induction records with
  | nil => rfl
  | cons record records inductionHypothesis =>
    rw [List.flatMap_cons, List.length_append, codec.length_encode, inductionHypothesis,
      List.length_cons, Nat.mul_succ, Nat.add_comm]

@[simp] theorem length_chunkRecords (position : Nat) (chunks : List Chunk) :
    (chunkRecords position chunks).length = chunks.length := by
  induction chunks generalizing position with
  | nil => rfl
  | cons chunk chunks inductionHypothesis =>
    rw [chunkRecords, List.length_cons, inductionHypothesis, List.length_cons]

theorem length_chunkTable (plan : LoadPlan) :
    (chunkTable plan).length = tableSize ChunkRecord.width plan.chunks.length := by
  simp only [chunkTable, Bytes.length_padTo, length_flatMap_encode, ChunkRecord.codec_width,
    List.length_append, length_chunkRecords, List.length_singleton, tableSize]

theorem length_zeroTable (plan : LoadPlan) :
    (zeroTable plan).length = tableSize ZeroRecord.width plan.zeroed.length := by
  simp only [zeroTable, Bytes.length_padTo, length_flatMap_encode, ZeroRecord.codec_width,
    List.length_append, List.length_map, List.length_singleton, tableSize]

theorem length_encode_header (start : Header) : (Header.codec.encode start).length = Header.size :=
  Header.codec.length_encode start

/-- A header fills its units, so nothing is added behind it. -/
theorem padTo_encode_header (start : Header) :
    Bytes.padTo (Header.codec.encode start) unit = Header.codec.encode start := by
  rw [Bytes.padTo, length_encode_header]
  exact List.append_nil _

/-- The header, the two tables and the data stand one behind the other. -/
theorem assemble_eq_regions (image : Image) (plan : LoadPlan) :
    assemble image plan =
      Header.codec.encode (header image plan) ++
        (chunkTable plan ++ (zeroTable plan ++ chunkData plan)) := by
  rw [assemble, padTo_encode_header, body, List.append_assoc]

theorem layout_zeroTable (plan : LoadPlan) :
    (Layout.ofPlan plan).zeroTable = Header.size + (chunkTable plan).length := by
  rw [length_chunkTable]
  rfl

theorem layout_data (plan : LoadPlan) :
    (Layout.ofPlan plan).data =
      Header.size + (chunkTable plan).length + (zeroTable plan).length := by
  rw [length_zeroTable, ← layout_zeroTable]
  rfl

/-- Nothing stands behind the data. -/
theorem length_assemble (image : Image) (plan : LoadPlan) :
    (assemble image plan).length = (Layout.ofPlan plan).data + (chunkData plan).length := by
  rw [assemble_eq_regions, layout_data]
  simp only [List.length_append, length_encode_header]
  omega

/-- The records of the chunks, and the one behind them, end before the data starts. -/
theorem chunkTable_end_le (plan : LoadPlan) :
    Header.size + (plan.chunks.length + 1) * ChunkRecord.width ≤ (Layout.ofPlan plan).data := by
  have table : ChunkRecord.width * (plan.chunks.length + 1) ≤ (chunkTable plan).length := by
    rw [length_chunkTable]
    exact Nat.le_add_right _ _
  rw [layout_data, Nat.mul_comm]
  omega

/-- Every chunk has a record in the file, so there are fewer chunks than bytes. -/
theorem length_chunks_lt (image : Image) (plan : LoadPlan) :
    plan.chunks.length < (assemble image plan).length := by
  have table := chunkTable_end_le plan
  rw [length_assemble]
  unfold ChunkRecord.width at table
  omega

/-! ## The data of one chunk -/

/-- Where the data of a chunk starts, if it stands behind the data of some others. -/
def dataStart (plan : LoadPlan) (front : List Chunk) : Nat :=
  (Layout.ofPlan plan).data + (front.flatMap fun chunk => chunk.data.padTo unit).length

theorem chunkRecords_append (start : Nat) (front back : List Chunk) :
    chunkRecords start (front ++ back) =
      chunkRecords start front ++
        chunkRecords (start + (front.flatMap fun chunk => chunk.data.padTo unit).length) back := by
  induction front generalizing start with
  | nil => rfl
  | cons chunk front inductionHypothesis =>
    rw [List.cons_append, chunkRecords, inductionHypothesis, chunkRecords, List.flatMap_cons,
      List.length_append, Bytes.length_padTo, Nat.add_assoc]
    rfl

/-- The data of a chunk stands in the file where it starts. -/
theorem assemble_around_data
    (image : Image)
    {plan : LoadPlan}
    {front back : List Chunk}
    {chunk : Chunk}
    (split : plan.chunks = front ++ chunk :: back) :
    ∃ before after, assemble image plan = before ++ (chunk.data ++ after) ∧
      before.length = dataStart plan front := by
  let padded := fun chunk : Chunk => chunk.data.padTo unit
  refine
    ⟨Header.codec.encode (header image plan) ++
        (chunkTable plan ++ (zeroTable plan ++ front.flatMap padded)),
      Bytes.zeros (paddingFor chunk.data.length unit) ++ back.flatMap padded, ?_, ?_⟩
  · rw [assemble_eq_regions, chunkData, split, List.flatMap_append, List.flatMap_cons,
      Bytes.padTo]
    simp only [List.append_assoc]
    rfl
  · simp only [List.length_append, length_encode_header, dataStart, layout_data, padded]
    omega

end HartBoot.ImageFile
