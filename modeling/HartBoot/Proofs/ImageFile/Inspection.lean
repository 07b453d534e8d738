import HartBoot.ImageFile.Inspection
import HartBoot.Proofs.Except

/-!
Contract: when the records of a file can be read.

Owns:
- `inspect_eq_ok_iff`, the conditions under which a file is accepted, and the records that it has;
- `inspect_eq_overflow_iff`, the conditions under which the reading is broken off;
- `checkChunks_cons_eq_ok_iff`, the condition on its chunks, one by one.

Does not own: the files that meet them (see `HartBoot.Proofs.ImageFile.RoundTrip`).
-/

namespace HartBoot.ImageFile

/-- Chunks are right when the first one is right and the others are. -/
theorem checkChunks_cons_eq_ok_iff
    {file : Bytes}
    {index : Nat}
    {record : ChunkRecord}
    {records : List ChunkRecord} :
    checkChunks file index (record :: records) = .ok () ↔
      checkChunk file index record = .ok () ∧ checkChunks file (index + 1) records = .ok () := by
  rw [checkChunks, Except.bind_eq_ok_iff]
  constructor
  · intro accepted
    rcases accepted with ⟨⟨⟩, first, others⟩
    exact ⟨first, others⟩
  · intro accepted
    rcases accepted with ⟨first, others⟩
    exact ⟨(), first, others⟩

/-- The data of a chunk is looked up without a sum that could be no word. -/
theorem checkChunks_ne_overflow (file : Bytes) (index : Nat) (records : List ChunkRecord) :
    checkChunks file index records ≠ .error .overflow := by
  intro broken
  induction records generalizing index with
  | nil => cases broken
  | cons record records inductionHypothesis =>
    rw [checkChunks] at broken
    rcases Except.bind_eq_error_iff.mp broken with first | ⟨_, -, others⟩
    · unfold checkChunk at first
      split at first
      · cases first
      · split at first <;> cases first
    · exact inductionHypothesis (index + 1) others

/-- A file is accepted when it has room for a header whose checksum is right, both tables have an
end, and every chunk is right. -/
theorem inspect_eq_ok_iff {file : Bytes} {summary : Summary} :
    inspect file = .ok summary ↔
      Header.size ≤ file.length ∧
        summary.header = headerOf file ∧
        (headerOf file).ownChecksum = (headerOf file).checksum ∧
        readTable ChunkRecord.codec ChunkRecord.ends file (headerOf file).chunkTable =
          .ok summary.chunks ∧
        readTable ZeroRecord.codec ZeroRecord.ends file (headerOf file).zeroTable =
          .ok summary.zeroed ∧
        checkChunks file 0 summary.chunks = .ok () := by
  rcases summary with ⟨start, records, regions⟩
  unfold inspect
  by_cases short : file.length < Header.size
  · have refused : ¬ Header.size ≤ file.length := Nat.not_le_of_lt short
    rw [if_pos short]
    constructor
    · intro accepted
      cases accepted
    · exact fun accepted => absurd accepted.1 refused
  have room : Header.size ≤ file.length := Nat.le_of_not_lt short
  rw [if_neg short]
  by_cases right : (headerOf file).ownChecksum = (headerOf file).checksum
  · simp only [ne_eq, right, not_true_eq_false, if_false, Except.bind_eq_ok_iff]
    constructor
    · intro accepted
      rcases accepted with ⟨chunks, chunkTable, zeroed, zeroTable, ⟨⟩, checked, same⟩
      cases same
      exact ⟨room, rfl, trivial, chunkTable, zeroTable, checked⟩
    · intro accepted
      rcases accepted with ⟨-, rfl, -, chunkTable, zeroTable, checked⟩
      exact ⟨records, chunkTable, regions, zeroTable, (), checked, rfl⟩
  · simp only [ne_eq, right, not_false_eq_true, if_true, false_and, and_false, iff_false]
    intro accepted
    cases accepted

/-- The reading of a file is broken off when the file has room for a header whose checksum is right,
and the reading of a table is broken off. The table of the regions of zeros is read behind that of
the chunks. -/
theorem inspect_eq_overflow_iff {file : Bytes} :
    inspect file = .error .overflow ↔
      Header.size ≤ file.length ∧
        (headerOf file).ownChecksum = (headerOf file).checksum ∧
        (readTable ChunkRecord.codec ChunkRecord.ends file (headerOf file).chunkTable =
            .error .overflow ∨
          (∃ chunks,
            readTable ChunkRecord.codec ChunkRecord.ends file (headerOf file).chunkTable =
              .ok chunks) ∧
            readTable ZeroRecord.codec ZeroRecord.ends file (headerOf file).zeroTable =
              .error .overflow) := by
  unfold inspect
  by_cases short : file.length < Header.size
  · have refused : ¬ Header.size ≤ file.length := Nat.not_le_of_lt short
    rw [if_pos short]
    constructor
    · intro broken
      cases broken
    · exact fun broken => absurd broken.1 refused
  have room : Header.size ≤ file.length := Nat.le_of_not_lt short
  rw [if_neg short]
  by_cases right : (headerOf file).ownChecksum = (headerOf file).checksum
  · have unbroken : ∀ chunks, checkChunks file 0 chunks ≠ .error .overflow :=
      checkChunks_ne_overflow file 0
    simp only [ne_eq, right, not_true_eq_false, if_false, Except.bind_eq_error_iff, unbroken,
      pure, Except.pure, reduceCtorEq, and_false, exists_false, or_false, room, true_and,
      exists_and_right]
  · simp only [ne_eq, right, not_false_eq_true, if_true, false_and, and_false, iff_false]
    intro broken
    cases broken

end HartBoot.ImageFile
