import HartBoot.Proofs.ImageFile.Placement

/-!
Contract: an image file whose end is missing is noticed.

Owns:
- the frame rules of a cut: what is written in the front of a file is what is written in the file
  and ends inside the front;
- `accepts_take_iff`, which says of any file that its front is accepted, with the same records,
  exactly when everything that the records tell of ends inside the front;
- `Summary.extent`, where the data of the last chunk ends, and the law of the file: it is refused
  when it is cut off before that place, and read as before when it is cut off there or later.

As in `HartBoot.Proofs.ImageFile.RoundTrip`, a file has to be shorter than the address space.

Does not own: bytes that are changed (see `HartBoot.Proofs.ImageFile.Corruption`).
-/

namespace HartBoot.ImageFile

/-! ## What is left of a region -/

section Region

variable {α : Type} {codec : Codec α} {ends : α → Bool} {file : Bytes} {count start : Nat}

theorem written_take_iff {value : α} :
    Written codec (file.take count) start value ↔
      Written codec file start value ∧ start + codec.width ≤ count :=
  Bytes.slice?_take_eq_some_iff

theorem tableAt_take_iff {records : List α} :
    TableAt codec ends (file.take count) start records ↔
      TableAt codec ends file start records ∧
        start + (records.length + 1) * codec.width ≤ count := by
  induction records generalizing start with
  | nil =>
    simp only [tableAt_nil_iff, written_take_iff, List.length_nil, Nat.zero_add, Nat.one_mul]
    constructor
    · intro terminator
      rcases terminator with ⟨last, ⟨written, room⟩, stops⟩
      exact ⟨⟨last, written, stops⟩, room⟩
    · intro terminator
      rcases terminator with ⟨⟨last, written, stops⟩, room⟩
      exact ⟨last, ⟨written, room⟩, stops⟩
  | cons record records inductionHypothesis =>
    have next : start + ((record :: records).length + 1) * codec.width =
        start + codec.width + (records.length + 1) * codec.width := by
      rw [List.length_cons, Nat.succ_mul (records.length + 1)]
      omega
    rw [tableAt_cons_iff, tableAt_cons_iff, written_take_iff, inductionHypothesis, next]
    constructor
    · intro table
      rcases table with ⟨⟨written, -⟩, goesOn, rest, room⟩
      exact ⟨⟨written, goesOn, rest⟩, room⟩
    · intro table
      rcases table with ⟨⟨written, goesOn, rest⟩, room⟩
      exact ⟨⟨written, Nat.le_trans (Nat.le_add_right _ _) room⟩, goesOn, rest, room⟩

end Region

theorem ChunkRecord.intact_take_iff {file : Bytes} {count : Nat} {record : ChunkRecord} :
    record.Intact (file.take count) ↔
      record.Intact file ∧ record.position.toNat + record.size.toNat ≤ count := by
  simp only [Intact, Bytes.slice?_take_eq_some_iff]
  constructor
  · intro intact
    rcases intact with ⟨data, ⟨found, room⟩, right⟩
    exact ⟨⟨data, found, right⟩, room⟩
  · intro intact
    rcases intact with ⟨⟨data, found, right⟩, room⟩
    exact ⟨data, ⟨found, room⟩, right⟩

theorem unsealedBytes_take {file : Bytes} {count : Nat} (room : Header.size ≤ count) :
    unsealedBytes (file.take count) = unsealedBytes file := by
  have same : (file.take count).take Header.size = file.take Header.size := by
    rw [List.take_take, Nat.min_eq_left room]
  rw [unsealedBytes, unsealedBytes, same]

/-! ## The front of any file -/

/-- Everything that the records of a file tell of ends at a place or in front of it. -/
structure Summary.Within (summary : Summary) (place : Nat) : Prop where
  header : Header.size ≤ place
  chunkTable : summary.header.chunkTable.toNat +
    (summary.chunks.length + 1) * ChunkRecord.width ≤ place
  zeroTable : summary.header.zeroTable.toNat +
    (summary.zeroed.length + 1) * ZeroRecord.width ≤ place
  data : ∀ record ∈ summary.chunks, record.position.toNat + record.size.toNat ≤ place

section Accepts

variable {file : Bytes} {summary : Summary} {count : Nat}

/-- The front of a file is accepted exactly when the file is, and all of it that matters is in the
front. -/
theorem accepts_take_iff :
    Accepts (file.take count) summary ↔ Accepts file summary ∧ summary.Within count := by
  constructor
  · intro accepts
    obtain ⟨header, headerRoom⟩ := written_take_iff.mp accepts.header
    rw [Nat.zero_add, Header.codec_width] at headerRoom
    obtain ⟨checksum, -⟩ := written_take_iff.mp accepts.checksum
    rw [unsealedBytes_take headerRoom] at checksum
    obtain ⟨chunks, chunkRoom⟩ := tableAt_take_iff.mp accepts.chunks
    obtain ⟨zeroed, zeroRoom⟩ := tableAt_take_iff.mp accepts.zeroed
    have data := fun record member => ChunkRecord.intact_take_iff.mp (accepts.data record member)
    exact
      ⟨⟨header, checksum, chunks, zeroed, fun record member => (data record member).1⟩,
        ⟨headerRoom, chunkRoom, zeroRoom, fun record member => (data record member).2⟩⟩
  · intro accepted
    rcases accepted with ⟨accepts, within⟩
    have sealRoom : Header.checksumAt + Codec.word32.width ≤ count :=
      Nat.le_trans (by decide) within.header
    exact {
      header := written_take_iff.mpr ⟨accepts.header, (Nat.zero_add _).symm ▸ within.header⟩
      checksum := by
        rw [unsealedBytes_take within.header]
        exact written_take_iff.mpr ⟨accepts.checksum, sealRoom⟩
      chunks := tableAt_take_iff.mpr ⟨accepts.chunks, within.chunkTable⟩
      zeroed := tableAt_take_iff.mpr ⟨accepts.zeroed, within.zeroTable⟩
      data := by
        intro record member
        apply ChunkRecord.intact_take_iff.mpr
        exact ⟨accepts.data record member, within.data record member⟩ }

/-- Everything that the records of an accepted file tell of is in the file. -/
theorem Accepts.within (accepts : Accepts file summary) : summary.Within file.length := by
  rw [← List.take_length (l := file)] at accepts
  exact (accepts_take_iff.mp accepts).2

end Accepts

/-! ## Where the data ends -/

/-- Where the data of the last chunk ends or, if there are no chunks, everything in front of the
data. -/
def Summary.extent (summary : Summary) : Nat :=
  match summary.chunks.getLast? with
  | some record => record.position.toNat + record.size.toNat
  | none => summary.header.headerLength.toNat

section Extent

variable {summary : Summary} {place : Nat}

theorem Summary.Within.extent_le
    (within : summary.Within place)
    (start : summary.header.headerLength.toNat ≤ place) :
    summary.extent ≤ place := by
  unfold Summary.extent
  split
  · next record last => exact within.data record (List.mem_of_getLast? last)
  · exact start

theorem Summary.headerLength_le_extent
    (behind : ∀ record ∈ summary.chunks,
      summary.header.headerLength.toNat ≤ record.position.toNat) :
    summary.header.headerLength.toNat ≤ summary.extent := by
  unfold Summary.extent
  split
  · next record last =>
    exact Nat.le_add_right_of_le (behind record (List.mem_of_getLast? last))
  · exact Nat.le_refl _

/-- If the data is in the order of the records, then all of it ends where the last one does. -/
theorem Summary.dataEnd_le_extent
    (ordered : summary.chunks.Pairwise fun first second =>
      first.position.toNat + first.size.toNat ≤ second.position.toNat)
    {record : ChunkRecord}
    (member : record ∈ summary.chunks) :
    record.position.toNat + record.size.toNat ≤ summary.extent := by
  unfold Summary.extent
  split
  · next last found =>
    obtain ⟨front, shape⟩ := List.getLast?_eq_some_iff.mp found
    rw [shape] at ordered member
    have before := (List.pairwise_append.mp ordered).2.2
    rcases List.mem_append.mp member with earlier | same
    · exact Nat.le_add_right_of_le (before record earlier last List.mem_cons_self)
    · obtain rfl := List.mem_singleton.mp same
      exact Nat.le_refl _
  · next none =>
    rw [List.getLast?_eq_none_iff.mp none] at member
    exact absurd member List.not_mem_nil

end Extent

/-! ## The file of a plan -/

section File

variable {image : Image} {plan : LoadPlan}

/-- Everything that the records of a file tell of ends where the data of the last chunk does. -/
theorem within_iff_extent_le
    (small : (assemble image plan).length < UInt64.size)
    {place : Nat} :
    (summaryOf image plan).Within place ↔ (summaryOf image plan).extent ≤ place := by
  have places := located small
  have start := toNat_headerLength small
  have chunkEnd := chunkTable_end image plan
  have zeroEnd := zeroTable_end small
  constructor
  · intro within
    refine within.extent_le ?_
    have room := within.zeroTable
    rw [zeroEnd] at room
    exact start.symm ▸ room
  · intro room
    have data : (Layout.ofPlan plan).data ≤ place := by
      rw [← start]
      exact Nat.le_trans
        (Summary.headerLength_le_extent fun record member => (places.inside record member).1) room
    have chunkTable := layout_zeroTable plan
    have zeroTable := layout_data plan
    refine ⟨?_, ?_, ?_, ?_⟩
    · omega
    · rw [chunkEnd]
      omega
    · rwa [zeroEnd]
    · intro record member
      exact Nat.le_trans (Summary.dataEnd_le_extent places.ordered member) room

theorem extent_of_no_chunks
    (small : (assemble image plan).length < UInt64.size)
    (empty : plan.chunks = []) :
    (summaryOf image plan).extent = (Layout.ofPlan plan).data := by
  have records : (summaryOf image plan).chunks = [] := by
    rw [summaryOf, empty]
    rfl
  rw [Summary.extent, records]
  exact toNat_headerLength small

theorem extent_of_last_chunk
    (small : (assemble image plan).length < UInt64.size)
    {before : List Chunk}
    {chunk : Chunk}
    (split : plan.chunks = before ++ [chunk]) :
    (summaryOf image plan).extent = dataStart plan before + chunk.data.length := by
  have records : (summaryOf image plan).chunks =
      chunkRecords (Layout.ofPlan plan).data before ++
        [ChunkRecord.ofChunk (dataStart plan before) chunk] := by
    rw [summaryOf, split, chunkRecords_append]
    rfl
  rw [Summary.extent, records, List.getLast?_concat]
  dsimp only
  rw [position_ofChunk_dataStart small split, (ofChunk_dataStart_describes small split).size]

/-- Behind the data of the last chunk there are only the zeros that fill its last unit. -/
theorem length_le_extent_add (small : (assemble image plan).length < UInt64.size) :
    (assemble image plan).length ≤ (summaryOf image plan).extent + 7 := by
  rcases List.eq_nil_or_concat plan.chunks with empty | ⟨before, chunk, split⟩
  · rw [extent_of_no_chunks small empty, ← data_add_length_filledData, empty]
    exact Nat.le_add_right _ _
  · rw [List.concat_eq_append] at split
    have padding := paddingFor_lt chunk.data.length unit (by decide)
    have filled : (filledData plan.chunks).length =
        (filledData before).length + roundUp chunk.data.length unit := by
      rw [split, filledData_append, filledData_cons, List.length_append, List.length_append,
        Bytes.length_padTo]
      rfl
    rw [extent_of_last_chunk small split, ← data_add_length_filledData, filled, dataStart_eq,
      roundUp]
    unfold unit at padding ⊢
    omega

end File

/-- An error is handed back for an image file that is cut off anywhere before the end of the data of
its last chunk, or of its tables if there are no chunks. When it is cut off there or later, its
records are read as before. There are at most seven bytes behind that place. -/
theorem inspect_take_assemble
    (image : Image)
    (plan : LoadPlan)
    (loadable : plan.Loadable)
    (small : (assemble image plan).length < UInt64.size) :
    ∃ summary,
      inspect (assemble image plan) = .ok summary ∧
        (∀ count < summary.extent, Refused ((assemble image plan).take count)) ∧
        (∀ count, summary.extent ≤ count → count ≤ (assemble image plan).length →
          inspect ((assemble image plan).take count) = .ok summary) ∧
        summary.extent ≤ (assemble image plan).length ∧
        (assemble image plan).length ≤ summary.extent + 7 := by
  have read : inspect (assemble image plan) = .ok (summaryOf image plan) :=
    inspect_assemble loadable small
  have accepts := (inspect_eq_ok_iff_accepts small).mp read
  have smallFront : ∀ count, ((assemble image plan).take count).length < UInt64.size :=
    fun count => Nat.lt_of_le_of_lt (List.length_take_le' count _) small
  refine ⟨summaryOf image plan, read, ?_, ?_, ?_, length_le_extent_add small⟩
  · intro count short
    apply refused_of_not_accepts (smallFront count)
    · intro summary cut
      -- Whatever is read from the front is read from the whole file, so it is what was written.
      obtain ⟨whole, within⟩ := accepts_take_iff.mp cut
      obtain rfl : summaryOf image plan = summary :=
        Except.ok.inj (read.symm.trans ((inspect_eq_ok_iff_accepts small).mpr whole))
      exact Nat.not_le_of_lt short ((within_iff_extent_le small).mp within)
    · exact not_overflows_of_tables accepts.header small
        (fun _ _ _ written => (written_take_iff.mp written).1) accepts.chunks accepts.zeroed
  · intro count enough _
    have within := (within_iff_extent_le small).mpr enough
    exact (inspect_eq_ok_iff_accepts (smallFront count)).mpr
      (accepts_take_iff.mpr ⟨accepts, within⟩)
  · exact (within_iff_extent_le small).mp accepts.within

/-- The file of two chunks and a region of zeros has 1672 bytes. The last seven of them can be
missing, the eighth cannot. -/
theorem inspect_take_assemble_twoHarts :
    let plan : LoadPlan :=
      { chunks := [⟨.u54_2, 0x80200000, [0x11, 0x22, 0x33]⟩, ⟨.u54_1, 0x80300000, [0x44]⟩]
        zeroed := [⟨.u54_2, 0x80400000, 0x100⟩] }
    let file := assemble Image.initial plan
    plan.Loadable ∧
      file.length < UInt64.size ∧
      Refused (file.take (file.length - 8)) ∧
      ∃ summary, inspect (file.take (file.length - 7)) = .ok summary := by
  intro plan file
  have loadable : plan.Loadable :=
    ((LoadPlan.Loadable.empty.withChunk (by decide)).withChunk (by decide)).withZeroed (by decide)
  have length : file.length = 1672 := by
    rw [length_assemble]
    decide
  have small : file.length < UInt64.size := by
    rw [length]
    decide
  obtain ⟨summary, read, refused, kept, -, -⟩ :=
    inspect_take_assemble Image.initial plan loadable small
  obtain rfl : summaryOf Image.initial plan = summary :=
    Except.ok.inj ((inspect_assemble loadable small).symm.trans read)
  have extent : (summaryOf Image.initial plan).extent = 1665 := by decide
  refine ⟨loadable, small, refused _ ?_, _, kept _ ?_ (Nat.sub_le _ _)⟩
  · omega
  · omega

end HartBoot.ImageFile
