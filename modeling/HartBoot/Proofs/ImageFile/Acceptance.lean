import HartBoot.Proofs.ImageFile.Inspection
import HartBoot.Proofs.ImageFile.Region
import HartBoot.Proofs.ImageFile.RoundTrip

/-!
Contract: which files are accepted, said of their bytes.

Owns:
- `Accepts`, the files that have a header with the right checksum, two tables with an end, and the
  data of every chunk, and what is written in them;
- `Overflows`, the files that send the reading of a table beyond the last position;
- `inspect_eq_ok_iff_accepts` and `inspect_eq_overflow_iff_overflows`, which say that just the
  former are read, and just so, and that just with the latter the reading is broken off;
- `Refused`, which says that an error is handed back, as it is with all other files;
- what does not matter (the first number of the file) and what is never read (tables and data behind
  the end of the file).

As in `HartBoot.Proofs.ImageFile.RoundTrip`, a file has to be shorter than the address space.

Does not own: what becomes of a file whose bytes change (see `HartBoot.Proofs.ImageFile.Corruption`).
-/

namespace HartBoot.ImageFile

/-! ## The checksum of the header -/

/-- Where the checksum of a header stands in it. -/
def Header.checksumAt : Nat := 16

/-- The header of a file, with zeros in place of its checksum. -/
def unsealedBytes (file : Bytes) : Bytes :=
  let start := file.take Header.size
  start.take Header.checksumAt ++
    (Bytes.zeros Codec.word32.width ++ start.drop (Header.checksumAt + Codec.word32.width))

/-- The written form of a header, around its checksum. -/
theorem Header.encode_around_checksum (start : Header) :
    ∃ front back, front.length = checksumAt ∧
      ∀ checksum, codec.encode { start with checksum := checksum } =
        front ++ (Codec.word32.encode checksum ++ back) := by
  refine
    ⟨Codec.word32.encode start.magic ++
        (Codec.word32.encode start.version ++ Codec.word64.encode start.headerLength),
      Codec.word32.encode start.reserved ++
        (Codec.word64.encode start.chunkTable ++
          (Codec.word64.encode start.zeroTable ++
            (hartsCodec.encode start.harts ++
              ((Codec.buffer Name.bufferSize).encode start.setName ++
                Codec.word64.encode start.imageLength)))),
      ?_, ?_⟩
  · simp only [List.length_append, Codec.length_encode]
    rfl
  · intro checksum
    rw [List.append_assoc, List.append_assoc]
    rfl

section Header

variable {file : Bytes} {start : Header}

theorem written_header_iff :
    Written Header.codec file 0 start ↔ Header.size ≤ file.length ∧ headerOf file = start := by
  rw [written_iff, Nat.zero_add, List.drop_zero, Header.codec_width]
  rfl

theorem take_size_of_written (written : Written Header.codec file 0 start) :
    file.take Header.size = Header.codec.encode start := by
  obtain ⟨-, bytes⟩ := Bytes.slice?_eq_some_iff.mp written
  exact bytes

theorem written_checksum (written : Written Header.codec file 0 start) :
    Written Codec.word32 file Header.checksumAt start.checksum := by
  obtain ⟨front, back, length, around⟩ := start.encode_around_checksum
  have bytes := (take_size_of_written written).trans (around start.checksum)
  have shape : file = front ++ (Codec.word32.encode start.checksum ++
      (back ++ file.drop Header.size)) := by
    rw [← List.append_assoc (Codec.word32.encode _), ← List.append_assoc front, ← bytes,
      List.take_append_drop]
  rw [shape, ← length]
  exact written_append front start.checksum _

theorem unsealedBytes_eq (written : Written Header.codec file 0 start) :
    unsealedBytes file = Header.codec.encode { start with checksum := 0 } := by
  obtain ⟨front, back, length, around⟩ := start.encode_around_checksum
  have bytes := (take_size_of_written written).trans (around start.checksum)
  have before : (front ++ (Codec.word32.encode start.checksum ++ back)).take Header.checksumAt =
      front :=
    List.take_left' length
  have behind : (front ++ (Codec.word32.encode start.checksum ++ back)).drop
      (Header.checksumAt + Codec.word32.width) = back := by
    rw [← List.append_assoc]
    apply List.drop_left'
    rw [List.length_append, length, Codec.length_encode]
  rw [around, unsealedBytes]
  simp only [bytes, before, behind]
  rfl

/-- The checksum of a header is right when it is the checksum of the other bytes of the header. -/
theorem ownChecksum_eq_iff (written : Written Header.codec file 0 start) :
    start.ownChecksum = start.checksum ↔
      Written Codec.word32 file Header.checksumAt (Crc32.checksum (unsealedBytes file)) := by
  rw [unsealedBytes_eq written]
  constructor
  · intro right
    change Written Codec.word32 file Header.checksumAt start.ownChecksum
    rw [right]
    exact written_checksum written
  · intro sealing
    exact sealing.functional (written_checksum written)

end Header

/-! ## The data of the chunks -/

/-- The data that a record tells of is in the file, and has the checksum that the record tells. -/
def ChunkRecord.Intact (file : Bytes) (record : ChunkRecord) : Prop :=
  ∃ data, file.slice? record.position.toNat record.size.toNat = some data ∧
    Crc32.checksum data = record.checksum

theorem checkChunk_eq_ok_iff {file : Bytes} {index : Nat} {record : ChunkRecord} :
    checkChunk file index record = .ok () ↔ record.Intact file := by
  unfold checkChunk ChunkRecord.Intact
  cases file.slice? record.position.toNat record.size.toNat with
  | none => simp
  | some data =>
    by_cases right : Crc32.checksum data = record.checksum <;> simp [right]

theorem checkChunks_eq_ok_iff {file : Bytes} {index : Nat} {records : List ChunkRecord} :
    checkChunks file index records = .ok () ↔ ∀ record ∈ records, record.Intact file := by
  induction records generalizing index with
  | nil => simp [checkChunks]
  | cons record records inductionHypothesis =>
    rw [checkChunks_cons_eq_ok_iff, checkChunk_eq_ok_iff, inductionHypothesis, List.forall_mem_cons]

/-! ## Accepted files -/

/-- A file has a header with the right checksum, two tables with an end, and the data of every
chunk, and this is what is written in the header and the tables. -/
structure Accepts (file : Bytes) (summary : Summary) : Prop where
  header : Written Header.codec file 0 summary.header
  checksum : Written Codec.word32 file Header.checksumAt (Crc32.checksum (unsealedBytes file))
  chunks : TableAt ChunkRecord.codec ChunkRecord.ends file summary.header.chunkTable.toNat
    summary.chunks
  zeroed : TableAt ZeroRecord.codec ZeroRecord.ends file summary.header.zeroTable.toNat
    summary.zeroed
  data : ∀ record ∈ summary.chunks, record.Intact file

/-- A file has a header with the right checksum, and the records of a table lead beyond the last
position: those of the table of the chunks, or, if that one has an end, those of the other one. -/
def Overflows (file : Bytes) : Prop :=
  ∃ start, Written Header.codec file 0 start ∧
    Written Codec.word32 file Header.checksumAt (Crc32.checksum (unsealedBytes file)) ∧
    (Overruns ChunkRecord.codec ChunkRecord.ends file start.chunkTable.toNat ∨
      (∃ records,
        TableAt ChunkRecord.codec ChunkRecord.ends file start.chunkTable.toNat records) ∧
        Overruns ZeroRecord.codec ZeroRecord.ends file start.zeroTable.toNat)

/-- An error is handed back for a file: it is not read, and the reading is not broken off. -/
def Refused (file : Bytes) : Prop :=
  ∃ fault, inspect file = .error fault ∧ fault ≠ .overflow

section Accepts

variable {file : Bytes} {summary : Summary}

theorem inspect_eq_ok_iff_accepts (small : file.length < UInt64.size) :
    inspect file = .ok summary ↔ Accepts file summary := by
  rw [inspect_eq_ok_iff]
  constructor
  · intro accepted
    rcases accepted with ⟨room, same, right, chunks, zeroed, checked⟩
    have written : Written Header.codec file 0 summary.header :=
      written_header_iff.mpr ⟨room, same.symm⟩
    rw [← same] at right chunks zeroed
    exact {
      header := written
      checksum := (ownChecksum_eq_iff written).mp right
      chunks := ((readTable_eq_ok_iff (by decide)).mp chunks).1
      zeroed := ((readTable_eq_ok_iff (by decide)).mp zeroed).1
      data := checkChunks_eq_ok_iff.mp checked }
  · intro accepts
    obtain ⟨room, same⟩ := written_header_iff.mp accepts.header
    rw [same]
    exact ⟨room, rfl, (ownChecksum_eq_iff accepts.header).mpr accepts.checksum,
      readTable_of_tableAt (by decide) small accepts.chunks,
      readTable_of_tableAt (by decide) small accepts.zeroed,
      checkChunks_eq_ok_iff.mpr accepts.data⟩

theorem inspect_eq_overflow_iff_overflows (small : file.length < UInt64.size) :
    inspect file = .error .overflow ↔ Overflows file := by
  have chunkTable : ∀ start : UInt64,
      (∃ chunks, readTable ChunkRecord.codec ChunkRecord.ends file start = .ok chunks) ↔
        ∃ records, TableAt ChunkRecord.codec ChunkRecord.ends file start.toNat records := by
    intro start
    constructor
    · rintro ⟨chunks, read⟩
      exact ⟨chunks, ((readTable_eq_ok_iff (by decide)).mp read).1⟩
    · rintro ⟨records, table⟩
      exact ⟨records, readTable_of_tableAt (by decide) small table⟩
  rw [inspect_eq_overflow_iff, readTable_eq_overflow_iff (by decide), chunkTable,
    readTable_eq_overflow_iff (by decide)]
  constructor
  · intro broken
    rcases broken with ⟨room, right, tables⟩
    have written : Written Header.codec file 0 (headerOf file) :=
      written_header_iff.mpr ⟨room, rfl⟩
    exact ⟨headerOf file, written, (ownChecksum_eq_iff written).mp right, tables⟩
  · intro overflows
    rcases overflows with ⟨start, written, sealing, tables⟩
    obtain ⟨room, rfl⟩ := written_header_iff.mp written
    exact ⟨room, (ownChecksum_eq_iff written).mpr sealing, tables⟩

/-- A file that is not accepted is refused, unless it sends the reading beyond the last position. -/
theorem refused_of_not_accepts
    (small : file.length < UInt64.size)
    (foreign : ∀ summary, ¬ Accepts file summary)
    (inside : ¬ Overflows file) :
    Refused file := by
  cases read : inspect file with
  | error fault =>
    refine ⟨fault, read, ?_⟩
    rintro rfl
    exact inside ((inspect_eq_overflow_iff_overflows small).mp read)
  | ok summary => exact absurd ((inspect_eq_ok_iff_accepts small).mp read) (foreign summary)

/-- A file whose header has another checksum is refused before a table is read. -/
theorem refused_of_unsealed
    (small : file.length < UInt64.size)
    (unsealed : ¬ Written Codec.word32 file Header.checksumAt
      (Crc32.checksum (unsealedBytes file))) :
    Refused file := by
  apply refused_of_not_accepts small
  · exact fun summary accepts => unsealed accepts.checksum
  · rintro ⟨start, -, sealing, -⟩
    exact unsealed sealing

/-- Two tables with an end do not send the reading beyond the last position, also if they stand in
another file that has at least what is written here. -/
theorem not_overflows_of_tables
    {whole : Bytes}
    {start : Header}
    (written : Written Header.codec whole 0 start)
    (small : whole.length < UInt64.size)
    (included : ∀ {α : Type} (codec : Codec α) offset value, Written codec file offset value →
      Written codec whole offset value)
    {chunks : List ChunkRecord}
    (chunkTable : TableAt ChunkRecord.codec ChunkRecord.ends whole start.chunkTable.toNat chunks)
    {zeroed : List ZeroRecord}
    (zeroTable : TableAt ZeroRecord.codec ZeroRecord.ends whole start.zeroTable.toNat zeroed) :
    ¬ Overflows file := by
  rintro ⟨other, again, -, tables⟩
  obtain rfl := written.functional (included _ _ _ again)
  rcases tables with chunkOverruns | ⟨-, zeroOverruns⟩
  · exact chunkTable.not_overruns small (included _) chunkOverruns
  · exact zeroTable.not_overruns small (included _) zeroOverruns

end Accepts

/-! ## The first number -/

/-- Neither a table nor the data of a chunk reaches into the header. -/
structure Summary.BehindHeader (summary : Summary) : Prop where
  chunkTable : Header.size ≤ summary.header.chunkTable.toNat
  zeroTable : Header.size ≤ summary.header.zeroTable.toNat
  data : ∀ record ∈ summary.chunks, Header.size ≤ record.position.toNat

/-- A header that starts with another number, with the checksum that it then needs. -/
def Header.relabelled (start : Header) (magic : UInt32) : Header :=
  { start with magic := magic }.sealed

/-- A file with another header. -/
def withHeader (file : Bytes) (start : Header) : Bytes :=
  Header.codec.encode start ++ file.drop Header.size

section Relabelled

variable {file : Bytes} {summary : Summary}

theorem written_withHeader (file : Bytes) (start : Header) :
    Written Header.codec (withHeader file start) 0 start :=
  written_append [] start _

theorem length_withHeader (start : Header) (room : Header.size ≤ file.length) :
    (withHeader file start).length = file.length := by
  rw [withHeader, List.length_append, length_encode_header, List.length_drop]
  omega

theorem getElem?_withHeader (start : Header) {index : Nat} (behind : Header.size ≤ index) :
    file[index]? = (withHeader file start)[index]? := by
  have length := length_encode_header start
  rw [withHeader, List.getElem?_append_right (length ▸ behind), length, List.getElem?_drop,
    Nat.add_sub_cancel' behind]

/-- The first number of a header does not matter, as long as its checksum is right. -/
theorem Accepts.relabelled
    (accepts : Accepts file summary)
    (behind : summary.BehindHeader)
    (magic : UInt32) :
    Accepts (withHeader file (summary.header.relabelled magic))
      { summary with header := summary.header.relabelled magic } := by
  have written := written_withHeader file (summary.header.relabelled magic)
  have lengths : file.length = (withHeader file (summary.header.relabelled magic)).length :=
    (length_withHeader _ (written_header_iff.mp accepts.header).1).symm
  have kept : ∀ index, Header.size ≤ index →
      file[index]? = (withHeader file (summary.header.relabelled magic))[index]? :=
    fun index => getElem?_withHeader (summary.header.relabelled magic)
  exact {
    header := written
    checksum := (ownChecksum_eq_iff written).mp rfl
    chunks := accepts.chunks.congr lengths fun index after _ =>
      kept index (Nat.le_trans behind.chunkTable after)
    zeroed := accepts.zeroed.congr lengths fun index after _ =>
      kept index (Nat.le_trans behind.zeroTable after)
    data := by
      intro record member
      obtain ⟨data, found, right⟩ := accepts.data record member
      refine ⟨data, ?_, right⟩
      rw [← found]
      refine (Bytes.slice?_congr lengths ?_).symm
      intro index after _
      exact kept index (Nat.le_trans (behind.data record member) after) }

end Relabelled

/-! ## The law of reading -/

/-- If a file leaves room for one more record in front of the last position, only the first record
of a table can lead beyond it. -/
theorem overflows_iff_of_small
    {file : Bytes}
    (small : file.length + ChunkRecord.width < UInt64.size) :
    Overflows file ↔
      ∃ start, Written Header.codec file 0 start ∧
        Written Codec.word32 file Header.checksumAt (Crc32.checksum (unsealedBytes file)) ∧
        (UInt64.size ≤ start.chunkTable.toNat + ChunkRecord.width ∨
          (∃ records,
            TableAt ChunkRecord.codec ChunkRecord.ends file start.chunkTable.toNat records) ∧
            UInt64.size ≤ start.zeroTable.toNat + ZeroRecord.width) := by
  have widths : ZeroRecord.width ≤ ChunkRecord.width := by decide
  have smallChunk : file.length + ChunkRecord.codec.width < UInt64.size := by
    rwa [ChunkRecord.codec_width]
  have smallZero : file.length + ZeroRecord.codec.width < UInt64.size := by
    rw [ZeroRecord.codec_width]
    omega
  simp only [Overflows, overruns_iff_of_small smallChunk, overruns_iff_of_small smallZero,
    ChunkRecord.codec_width, ZeroRecord.codec_width]

/-- A file is read exactly when it has a header with the right checksum, two tables with an end and
the data of every chunk, and then what is read is what is written there. The number at its start
does not matter. The reading is broken off exactly when the header has the right checksum, and the
end of the first record of a table would be beyond the last position. In particular a file is not
read when it points to a table or to data that it does not have. -/
theorem inspect_exact
    (file : Bytes)
    (small : file.length + ChunkRecord.width < UInt64.size) :
    (∀ summary, inspect file = .ok summary ↔ Accepts file summary) ∧
      (∀ summary, Accepts file summary → summary.BehindHeader → ∀ magic,
        inspect (withHeader file (summary.header.relabelled magic)) =
          .ok { summary with header := summary.header.relabelled magic }) ∧
      (inspect file = .error .overflow ↔
        ∃ start, Written Header.codec file 0 start ∧
          Written Codec.word32 file Header.checksumAt (Crc32.checksum (unsealedBytes file)) ∧
          (UInt64.size ≤ start.chunkTable.toNat + ChunkRecord.width ∨
            (∃ records,
              TableAt ChunkRecord.codec ChunkRecord.ends file start.chunkTable.toNat records) ∧
              UInt64.size ≤ start.zeroTable.toNat + ZeroRecord.width)) ∧
      ∀ start, Written Header.codec file 0 start →
        (file.length < start.chunkTable.toNat + ChunkRecord.width ∨
          file.length < start.zeroTable.toNat + ZeroRecord.width ∨
          ∃ records,
            TableAt ChunkRecord.codec ChunkRecord.ends file start.chunkTable.toNat records ∧
              ∃ record ∈ records,
                file.length < record.position.toNat + record.size.toNat) →
        ∃ fault, inspect file = .error fault := by
  have short : file.length < UInt64.size := Nat.lt_of_le_of_lt (Nat.le_add_right _ _) small
  refine ⟨fun _ => inspect_eq_ok_iff_accepts short, ?_, ?_, ?_⟩
  · intro summary accepts behind magic
    have lengths := length_withHeader (summary.header.relabelled magic)
      (written_header_iff.mp accepts.header).1
    exact (inspect_eq_ok_iff_accepts (lengths ▸ short)).mpr (accepts.relabelled behind magic)
  · exact (inspect_eq_overflow_iff_overflows short).trans (overflows_iff_of_small small)
  · intro start written outside
    cases read : inspect file with
    | error fault => exact ⟨fault, rfl⟩
    | ok summary =>
      have accepts := (inspect_eq_ok_iff_accepts short).mp read
      obtain rfl := written.functional accepts.header
      rcases outside with chunks | zeroed | ⟨records, table, record, member, behind⟩
      · have room := accepts.chunks.inside
        rw [ChunkRecord.codec_width, Nat.succ_mul] at room
        omega
      · have room := accepts.zeroed.inside
        rw [ZeroRecord.codec_width, Nat.succ_mul] at room
        omega
      · obtain rfl := table.functional accepts.chunks
        obtain ⟨data, found, -⟩ := accepts.data record member
        have room := (Bytes.slice?_eq_some_iff.mp found).1
        omega

section OneChunk

/-- A plan with one chunk, and the header of its file. -/
def oneChunk : LoadPlan :=
  ⟨[⟨.u54_1, 0x80000000, [0x11, 0x22, 0x33]⟩], []⟩

/-- The file of one chunk with a header that says that the table of the chunks is elsewhere. -/
def oneChunkElsewhere (chunkTable : UInt64) : Bytes :=
  withHeader (assemble Image.initial oneChunk)
    { header Image.initial oneChunk with chunkTable := chunkTable }.sealed

theorem length_oneChunk : (assemble Image.initial oneChunk).length = 1600 := by
  rw [length_assemble]
  decide

/-- The file of one chunk is read, and with zero at its start too. It is not read when its header
says that the table of the chunks is behind its end. -/
theorem inspect_exact_oneChunk :
    let file := assemble Image.initial oneChunk
    let summary := summaryOf Image.initial oneChunk
    file.length + ChunkRecord.width < UInt64.size ∧
      inspect file = .ok summary ∧
      Accepts file summary ∧
      summary.BehindHeader ∧
      inspect (withHeader file (summary.header.relabelled 0)) =
        .ok { summary with header := summary.header.relabelled 0 } ∧
      ∃ fault, inspect (oneChunkElsewhere 0x1000) = .error fault := by
  intro file summary
  have length : file.length = 1600 := length_oneChunk
  have small : file.length + ChunkRecord.width < UInt64.size := by
    rw [length]
    decide
  have loadable : oneChunk.Loadable := LoadPlan.Loadable.empty.withChunk (by decide)
  have read : inspect file = .ok summary :=
    inspect_assemble loadable (by rw [length]; decide)
  obtain ⟨accepted, relabelled, -, -⟩ := inspect_exact file small
  have accepts : Accepts file summary := (accepted summary).mp read
  have behind : summary.BehindHeader := ⟨by decide, by decide, by decide⟩
  let far : Header := { header Image.initial oneChunk with chunkTable := 0x1000 }.sealed
  have moved : (oneChunkElsewhere 0x1000).length = 1600 := by
    rw [← length]
    exact length_withHeader far (by rw [length]; decide)
  have outside : (oneChunkElsewhere 0x1000).length < far.chunkTable.toNat + ChunkRecord.width := by
    rw [moved]
    decide
  have refused := (inspect_exact (oneChunkElsewhere 0x1000) (by rw [moved]; decide)).2.2.2 far
    (written_withHeader file far) (.inl outside)
  exact ⟨small, read, accepts, behind, relabelled summary accepts behind 0, refused⟩

/-- With the last address for the table of the chunks, no error is handed back: the reading is
broken off, although the table is behind the end of the file as before. -/
theorem far_table_breaks_off :
    let file := oneChunkElsewhere 0xFFFFFFFFFFFFFFFF
    (∃ start, Written Header.codec file 0 start ∧ start.ownChecksum = start.checksum ∧
        file.length < start.chunkTable.toNat) ∧
      inspect file = .error .overflow ∧ ¬ Refused file := by
  intro file
  let far : Header :=
    { header Image.initial oneChunk with chunkTable := 0xFFFFFFFFFFFFFFFF }.sealed
  have length : file.length = 1600 := by
    rw [← length_oneChunk]
    exact length_withHeader far (by rw [length_oneChunk]; decide)
  have written : Written Header.codec file 0 far :=
    written_withHeader (assemble Image.initial oneChunk) far
  have right : far.ownChecksum = far.checksum := ownChecksum_sealed _
  have broken : inspect file = .error .overflow := by
    apply (inspect_eq_overflow_iff_overflows (by rw [length]; decide)).mpr
    exact ⟨far, written, (ownChecksum_eq_iff written).mp right, .inl (.here (by decide))⟩
  refine ⟨⟨far, written, right, by rw [length]; decide⟩, broken, ?_⟩
  rintro ⟨fault, refused, returned⟩
  exact returned (Except.error.inj (refused.symm.trans broken))

end OneChunk

end HartBoot.ImageFile
