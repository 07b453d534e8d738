import HartBoot.Proofs.Crc32
import HartBoot.Proofs.ImageFile.Placement

/-!
Contract: a changed byte in an image file is noticed.

Owns:
- `Accepts.refused_of_header_set` and `Accepts.refused_of_data_set`, which say it of any file that
  is accepted: of the bytes of its header, and of the data of its chunks;
- `Sealed`, the positions of these bytes in the file of a plan, and the law of the file: if one of
  them is replaced by another value, the file is refused.

Bytes that only fill a region up, and those of the tables, are not sealed. As in
`HartBoot.Proofs.ImageFile.RoundTrip`, a file has to be shorter than the address space.

Does not own: why byte strings that differ in one byte have different checksums (see
`HartBoot.Proofs.Crc32`).
-/

namespace HartBoot.ImageFile

variable {file : Bytes} {summary : Summary} {position : Nat} {value : UInt8}

/-! ## The header of any accepted file -/

section Header

theorem length_unsealedBytes (room : Header.size ≤ file.length) :
    (unsealedBytes file).length = Header.size := by
  simp only [unsealedBytes, List.length_append, List.length_take, List.length_drop,
    Bytes.length_zeros, Nat.min_eq_left room]
  rfl

/-- The bytes that the checksum of a header is made from do not include the checksum itself. -/
theorem unsealedBytes_set_inside
    (behind : Header.checksumAt ≤ position)
    (before : position < Header.checksumAt + Codec.word32.width) :
    unsealedBytes (file.set position value) = unsealedBytes file := by
  simp only [unsealedBytes, List.take_set, List.take_set_of_le behind, List.drop_set_of_lt before]

/-- They include every other byte of the header, at its own place. -/
theorem unsealedBytes_set_outside
    (room : Header.size ≤ file.length)
    (outside : position < Header.checksumAt ∨ Header.checksumAt + Codec.word32.width ≤ position) :
    unsealedBytes (file.set position value) = (unsealedBytes file).set position value := by
  have front : ((file.take Header.size).take Header.checksumAt).length = Header.checksumAt := by
    rw [List.length_take, List.length_take_of_le room]
    rfl
  have start : (file.set position value).take Header.size =
      (file.take Header.size).set position value :=
    List.take_set
  simp only [unsealedBytes, start]
  rcases outside with before | behind
  · rw [List.drop_set_of_lt (Nat.lt_add_right _ before), List.take_set,
      List.set_append_left _ _ (by rwa [front])]
  · have field := Bytes.length_zeros Codec.word32.width
    have after : Header.checksumAt ≤ position := Nat.le_trans (Nat.le_add_right _ _) behind
    rw [List.take_set_of_le after, List.drop_set, if_neg (Nat.not_lt_of_le behind),
      List.set_append_right _ _ (by rwa [front]), List.set_append_right _ _ (by rw [field]; omega),
      front, field, Nat.sub_sub]

theorem checksum_unsealedBytes_set_ne
    (room : Header.size ≤ file.length)
    (covered : position < Header.size)
    (outside : position < Header.checksumAt ∨ Header.checksumAt + Codec.word32.width ≤ position)
    (different : file[position]? ≠ some value) :
    Crc32.checksum (unsealedBytes (file.set position value)) ≠
      Crc32.checksum (unsealedBytes file) := by
  have inside : position < file.length := Nat.lt_of_lt_of_le covered room
  have counted : position < (unsealedBytes file).length := by rwa [length_unsealedBytes room]
  -- Putting the byte that is there back in its place shows which byte is counted.
  have own : (unsealedBytes file)[position]? = file[position]? := by
    have same : unsealedBytes (file.set position file[position]) =
        (unsealedBytes file).set position file[position] :=
      unsealedBytes_set_outside room outside
    rw [List.set_getElem_self] at same
    rw [List.getElem?_eq_getElem inside, same, List.getElem?_set_self counted]
  rw [unsealedBytes_set_outside room outside]
  exact Crc32.checksum_set_ne counted (own ▸ different)

/-- A file is refused if it has been accepted before a byte of its header was replaced. -/
theorem Accepts.refused_of_header_set
    (accepts : Accepts file summary)
    (small : file.length < UInt64.size)
    (covered : position < Header.size)
    (different : file[position]? ≠ some value) :
    Refused (file.set position value) := by
  apply refused_of_unsealed
  · rwa [List.length_set]
  intro sealing
  have room := (written_header_iff.mp accepts.header).1
  have inside : position < file.length := Nat.lt_of_lt_of_le covered room
  by_cases field : Header.checksumAt ≤ position ∧
      position < Header.checksumAt + Codec.word32.width
  · -- The checksum itself has changed, but not what it is made from.
    rw [unsealedBytes_set_inside field.1 field.2] at sealing
    have offset : position - Header.checksumAt < Codec.word32.width := by omega
    have old := Bytes.getElem?_of_slice? accepts.checksum offset
    have new := Bytes.getElem?_of_slice? sealing offset
    rw [Nat.add_sub_cancel' field.1] at old new
    rw [List.getElem?_set_self inside] at new
    exact different (old.symm.trans new)
  · -- What the checksum is made from has changed, but not the checksum itself.
    have kept : Written Codec.word32 (file.set position value) Header.checksumAt
        (Crc32.checksum (unsealedBytes file)) := by
      refine accepts.checksum.congr (List.length_set ..).symm ?_
      intro index behind before
      rw [List.getElem?_set_ne]
      omega
    exact checksum_unsealedBytes_set_ne room covered (by omega) different (sealing.functional kept)

end Header

/-! ## The data of any accepted file -/

/-- A position belongs to the data that a record tells of. -/
def ChunkRecord.Covers (record : ChunkRecord) (position : Nat) : Prop :=
  record.position.toNat ≤ position ∧ position < record.position.toNat + record.size.toNat

/-- The data that a record tells of is not intact any more when a byte of it is replaced. -/
theorem ChunkRecord.Intact.not_set
    {record : ChunkRecord}
    (intact : record.Intact file)
    (covers : record.Covers position)
    (different : file[position]? ≠ some value) :
    ¬ record.Intact (file.set position value) := by
  rintro ⟨changed, again, right⟩
  obtain ⟨data, found, once⟩ := intact
  obtain ⟨behind, before⟩ := covers
  obtain rfl := Option.some.inj ((Bytes.slice?_set found behind value).symm.trans again)
  have offset : position - record.position.toNat < record.size.toNat := by omega
  have inside : position - record.position.toNat < data.length := by
    rwa [Bytes.length_of_slice? found]
  have byte := Bytes.getElem?_of_slice? found offset
  rw [Nat.add_sub_cancel' behind] at byte
  exact Crc32.checksum_set_ne inside (byte ▸ different) (right.trans once.symm)

/-- A file is refused if it has been accepted before a byte of the data of a chunk was replaced
that neither the header nor the tables make use of. -/
theorem Accepts.refused_of_data_set
    (accepts : Accepts file summary)
    (small : file.length < UInt64.size)
    {record : ChunkRecord}
    (member : record ∈ summary.chunks)
    (covers : record.Covers position)
    (behindHeader : Header.size ≤ position)
    (behindChunks : summary.header.chunkTable.toNat +
      (summary.chunks.length + 1) * ChunkRecord.width ≤ position)
    (behindZeros : summary.header.zeroTable.toNat +
      (summary.zeroed.length + 1) * ZeroRecord.width ≤ position)
    (different : file[position]? ≠ some value) :
    Refused (file.set position value) := by
  have kept : ∀ index, index < position → file[index]? = (file.set position value)[index]? :=
    fun index before => (List.getElem?_set_ne (Nat.ne_of_gt before)).symm
  have lengths : file.length = (file.set position value).length := List.length_set.symm
  have header : Written Header.codec (file.set position value) 0 summary.header := by
    refine accepts.header.congr lengths ?_
    intro index _ before
    rw [Header.codec_width] at before
    exact kept index (by omega)
  have chunks : TableAt ChunkRecord.codec ChunkRecord.ends (file.set position value)
      summary.header.chunkTable.toNat summary.chunks := by
    refine accepts.chunks.congr lengths ?_
    exact fun index _ before => kept index (Nat.lt_of_lt_of_le before behindChunks)
  have zeroed : TableAt ZeroRecord.codec ZeroRecord.ends (file.set position value)
      summary.header.zeroTable.toNat summary.zeroed := by
    refine accepts.zeroed.congr lengths ?_
    exact fun index _ before => kept index (Nat.lt_of_lt_of_le before behindZeros)
  rw [lengths] at small
  apply refused_of_not_accepts small
  · intro other again
    have same := header.functional again.header
    have records : summary.chunks = other.chunks := chunks.functional (same ▸ again.chunks)
    exact (accepts.data record member).not_set covers different
      (again.data record (records ▸ member))
  · exact not_overflows_of_tables header small (fun _ _ _ written => written) chunks zeroed

/-! ## The file of a plan -/

/-- The positions of the bytes in the file of a plan that a checksum is made from, or that are one:
those of the header, and those of the data of the chunks. -/
inductive Sealed (plan : LoadPlan) : Nat → Prop where
  | header {position : Nat} : position < Header.size → Sealed plan position
  | data {front back : List Chunk} {chunk : Chunk} {offset : Nat} :
    plan.chunks = front ++ chunk :: back → offset < chunk.data.length →
    Sealed plan (dataStart plan front + offset)

section File

variable {image : Image} {plan : LoadPlan}

theorem getElem?_assemble_data
    {front back : List Chunk}
    {chunk : Chunk}
    {offset : Nat}
    (split : plan.chunks = front ++ chunk :: back)
    (inside : offset < chunk.data.length) :
    (assemble image plan)[dataStart plan front + offset]? = chunk.data[offset]? := by
  obtain ⟨before, after, shape, start⟩ := assemble_around_data image split
  rw [shape, ← start, List.getElem?_append_right (Nat.le_add_right _ _), Nat.add_sub_cancel_left,
    List.getElem?_append_left inside]

/-- The record of a chunk covers its data. -/
theorem covers_data
    (small : (assemble image plan).length < UInt64.size)
    {front back : List Chunk}
    {chunk : Chunk}
    {offset : Nat}
    (split : plan.chunks = front ++ chunk :: back)
    (inside : offset < chunk.data.length) :
    ∃ record ∈ (summaryOf image plan).chunks, record.Covers (dataStart plan front + offset) := by
  refine ⟨_, List.mem_of_getElem? (getElem?_chunkRecords split), ?_⟩
  rw [ChunkRecord.Covers, position_ofChunk_dataStart small split,
    (ofChunk_dataStart_describes small split).size]
  omega

end File

/-- If any byte of the header or of the data of a chunk is replaced by another value, an error is
handed back for the file. -/
theorem refused_of_sealed_set
    (image : Image)
    (plan : LoadPlan)
    (loadable : plan.Loadable)
    (small : (assemble image plan).length < UInt64.size)
    (position : Nat)
    (covered : Sealed plan position)
    (value : UInt8)
    (different : (assemble image plan)[position]? ≠ some value) :
    Refused ((assemble image plan).set position value) := by
  have accepts : Accepts (assemble image plan) (summaryOf image plan) :=
    (inspect_eq_ok_iff_accepts small).mp (inspect_assemble loadable small)
  cases covered with
  | header inside => exact accepts.refused_of_header_set small inside different
  | @data front back chunk offset split inside =>
    obtain ⟨record, member, covers⟩ := covers_data small split inside
    have chunkTable := layout_zeroTable plan
    have zeroTable := layout_data plan
    have start : (Layout.ofPlan plan).data ≤ dataStart plan front := Nat.le_add_right _ _
    refine accepts.refused_of_data_set small member covers ?_ ?_ ?_ different
    · omega
    · rw [chunkTable_end image plan]
      omega
    · rw [zeroTable_end small]
      omega

/-- In the file of two chunks, neither the first byte of the header nor the only byte of the second
chunk can be replaced by zero. -/
theorem refused_of_sealed_set_twoHarts :
    let first : Chunk := ⟨.u54_2, 0x80200000, [0x11, 0x22, 0x33]⟩
    let second : Chunk := ⟨.u54_1, 0x80300000, [0x44]⟩
    let plan : LoadPlan := ⟨[first, second], [⟨.u54_2, 0x80400000, 0x100⟩]⟩
    let file := assemble Image.initial plan
    let position := dataStart plan [first] + 0
    plan.Loadable ∧
      file.length < UInt64.size ∧
      Sealed plan 0 ∧ file[0]? ≠ some 0 ∧ Refused (file.set 0 0) ∧
      Sealed plan position ∧ file[position]? ≠ some 0 ∧ Refused (file.set position 0) := by
  intro first second plan file position
  have loadable : plan.Loadable :=
    ((LoadPlan.Loadable.empty.withChunk (by decide)).withChunk (by decide)).withZeroed (by decide)
  have small : file.length < UInt64.size := by
    rw [length_assemble]
    decide
  have split : plan.chunks = [first] ++ second :: [] := rfl
  have start : Sealed plan 0 := .header (by decide)
  have startByte : file[0]? ≠ some 0 := by
    have magic : file[0]? = some 0xDE := by decide +kernel
    rw [magic]
    decide
  have byte : Sealed plan position := .data split (by decide)
  have dataByte : file[position]? ≠ some 0 := by
    rw [getElem?_assemble_data split (by decide)]
    decide
  exact ⟨loadable, small, start, startByte,
    refused_of_sealed_set Image.initial plan loadable small 0 start 0 startByte, byte, dataByte,
    refused_of_sealed_set Image.initial plan loadable small position byte 0 dataByte⟩

end HartBoot.ImageFile
