import HartBoot.Proofs.ImageFile.Region

/-!
Contract: how a table is read.

Owns:
- `readRecords_drop`, one turn of the reading;
- `readTable_eq_ok_iff` and `readTable_eq_overflow_iff`, which say that a table is read exactly when
  there is one, and that the reading is broken off exactly when the records lead beyond the last
  position;
- `readTable_written`, which says that a table that was written can be read.

Does not own: which tables a file has (see `HartBoot.Proofs.ImageFile.Layout`).
-/

namespace HartBoot.ImageFile

variable {α : Type} {codec : Codec α} {ends : α → Bool} {file : Bytes} {records : List α}

/-! ## One turn -/

section Turn

variable {origin : UInt64} {start : Nat}

/-- First the end of a record is computed, and then compared with the end of the file. A record that
is in the file ends the table, or the others are read behind it. -/
theorem readRecords_drop (positive : 0 < codec.width) :
    readRecords codec ends origin start (file.drop start) =
      if UInt64.size ≤ start + codec.width then .error .overflow
      else if start + codec.width ≤ file.length then
        let record := codec.decode ((file.drop start).take codec.width)
        if ends record then .ok []
        else
          (readRecords codec ends origin (start + codec.width)
            (file.drop (start + codec.width))).map (record :: ·)
      else .error (.tablePastEnd origin) := by
  have same : (0 < codec.width ∧ codec.width ≤ file.length - start) ↔
      start + codec.width ≤ file.length := by
    omega
  rw [readRecords, List.length_drop, List.drop_drop]
  simp only [dite_eq_ite, same]

/-- A record that is written where the reading stands is read. -/
theorem readRecords_of_written
    (positive : 0 < codec.width)
    {record : α}
    (written : Written codec file start record)
    (inside : start + codec.width < UInt64.size) :
    readRecords codec ends origin start (file.drop start) =
      if ends record then .ok []
      else
        (readRecords codec ends origin (start + codec.width)
          (file.drop (start + codec.width))).map (record :: ·) := by
  obtain ⟨room, read⟩ := written_iff.mp written
  rw [readRecords_drop positive, if_neg (Nat.not_le_of_lt inside), if_pos room, read]

/-- Where nothing is written, nothing is read. -/
theorem readRecords_of_not_written
    (positive : 0 < codec.width)
    (nothing : ∀ record, ¬ Written codec file start record)
    (inside : start + codec.width < UInt64.size) :
    readRecords codec ends origin start (file.drop start) = .error (.tablePastEnd origin) := by
  have outside : ¬ start + codec.width ≤ file.length :=
    fun room => nothing _ (written_iff.mpr ⟨room, rfl⟩)
  rw [readRecords_drop positive, if_neg (Nat.not_le_of_lt inside), if_neg outside]

end Turn

/-! ## Whole tables -/

section Reading

variable {origin start : UInt64} {position : Nat}

/-- The reading of a table ends in one of three ways: there is a table, and it is read; or the
records lead beyond the last position; or neither, and the records lead behind the end of the
file. -/
theorem readRecords_cases (positive : 0 < codec.width) :
    let read := readRecords codec ends origin position (file.drop position)
    (∃ records, read = .ok records ∧ TableAt codec ends file position records ∧
        ¬ Overruns codec ends file position) ∨
      (read = .error .overflow ∧ Overruns codec ends file position) ∨
      (read = .error (.tablePastEnd origin) ∧ ¬ Overruns codec ends file position ∧
        ∀ records, ¬ TableAt codec ends file position records) := by
  -- With every record that goes on, less of the file is left.
  induction remaining : file.length - position using Nat.strongRecOn generalizing position with
  | ind count inductionHypothesis =>
  by_cases beyond : UInt64.size ≤ position + codec.width
  · refine .inr (.inl ⟨?_, .here beyond⟩)
    rw [readRecords_drop positive, if_pos beyond]
  have inside : position + codec.width < UInt64.size := Nat.lt_of_not_le beyond
  by_cases present : ∃ record, Written codec file position record
  case neg =>
    have nothing := not_exists.mp present
    refine .inr (.inr ⟨readRecords_of_not_written positive nothing inside,
      not_overruns_of_not_written nothing inside, ?_⟩)
    intro records table
    cases records with
    | nil =>
      obtain ⟨last, ended, -⟩ := tableAt_nil_iff.mp table
      exact nothing last ended
    | cons record rest => exact nothing record (tableAt_cons_iff.mp table).1
  obtain ⟨record, written⟩ := present
  rw [readRecords_of_written positive written inside, overruns_iff_of_written written inside]
  cases stops : ends record with
  | true =>
    refine .inl ⟨[], rfl, tableAt_nil_iff.mpr ⟨record, written, stops⟩, ?_⟩
    exact fun overruns => Bool.false_ne_true overruns.1.symm
  | false =>
    have room := written.inside
    have shorter : file.length - (position + codec.width) < count := by omega
    rcases inductionHypothesis _ shorter rfl with ⟨records, read, table, within⟩ | broken | cut
    · refine .inl ⟨record :: records, ?_, tableAt_cons_iff.mpr ⟨written, stops, table⟩, ?_⟩
      · simp [read, Except.map]
      · exact fun overruns => within overruns.2
    · refine .inr (.inl ⟨?_, rfl, broken.2⟩)
      simp [broken.1, Except.map]
    · refine .inr (.inr ⟨?_, fun overruns => cut.2.1 overruns.2, ?_⟩)
      · simp [cut.1, Except.map]
      · intro records table
        cases records with
        | nil =>
          obtain ⟨last, ended, ends⟩ := tableAt_nil_iff.mp table
          exact written.not_ends stops ended ends
        | cons other rest => exact cut.2.2 rest (tableAt_cons_iff.mp table).2.2

/-- A table is read exactly when it is there, and its records do not lead beyond the last
position. -/
theorem readTable_eq_ok_iff (positive : 0 < codec.width) :
    readTable codec ends file start = .ok records ↔
      TableAt codec ends file start.toNat records ∧ ¬ Overruns codec ends file start.toNat := by
  rcases readRecords_cases positive with ⟨found, read, table, within⟩ | broken | cut
  · rw [readTable, read]
    constructor
    · rintro ⟨⟩
      exact ⟨table, within⟩
    · rintro ⟨again, -⟩
      rw [table.functional again]
  · rw [readTable, broken.1]
    constructor
    · rintro ⟨⟩
    · exact fun table => absurd broken.2 table.2
  · rw [readTable, cut.1]
    constructor
    · rintro ⟨⟩
    · exact fun table => absurd table.1 (cut.2.2 records)

/-- The reading of a table is broken off exactly when the records lead beyond the last position. -/
theorem readTable_eq_overflow_iff (positive : 0 < codec.width) :
    readTable codec ends file start = .error .overflow ↔
      Overruns codec ends file start.toNat := by
  rcases readRecords_cases positive with ⟨found, read, -, within⟩ | broken | cut
  · rw [readTable, read]
    constructor
    · rintro ⟨⟩
    · exact fun overruns => absurd overruns within
  · exact ⟨fun _ => broken.2, fun _ => broken.1⟩
  · rw [readTable, cut.1]
    constructor
    · rintro ⟨⟩
    · exact fun overruns => absurd overruns cut.2.1

/-- In a file that is shorter than the address space, a table is read when it is there. -/
theorem readTable_of_tableAt
    (positive : 0 < codec.width)
    (small : file.length < UInt64.size)
    (table : TableAt codec ends file start.toNat records) :
    readTable codec ends file start = .ok records :=
  (readTable_eq_ok_iff positive).mpr ⟨table, table.not_overruns small fun _ _ written => written⟩

end Reading

/-! ## Tables that were written -/

/-- Behind anything, records are a table if the last of them is the only one that ends it. -/
theorem tableAt_written
    {terminator : α}
    (goesOn : ∀ record ∈ records, ends record = false)
    (stops : ends terminator = true)
    (front rest : Bytes) :
    TableAt codec ends
      (front ++ ((records ++ [terminator]).flatMap codec.encode ++ rest)) front.length records := by
  induction records generalizing front with
  | nil =>
    rw [List.nil_append, List.flatMap_singleton]
    exact tableAt_nil_iff.mpr ⟨terminator, written_append front terminator rest, stops⟩
  | cons record records inductionHypothesis =>
    have others := inductionHypothesis
      (fun other member => goesOn other (List.mem_cons_of_mem record member))
      (front ++ codec.encode record)
    rw [List.length_append, codec.length_encode] at others
    apply tableAt_cons_iff.mpr
    simp only [List.cons_append, List.flatMap_cons, List.append_assoc] at others ⊢
    exact ⟨written_append front record _, goesOn record List.mem_cons_self, others⟩

/-- A table in a file is read from the place where it starts. -/
theorem readTable_written
    (positive : 0 < codec.width)
    {terminator : α}
    (goesOn : ∀ record ∈ records, ends record = false)
    (stops : ends terminator = true)
    {front rest : Bytes}
    {start : UInt64}
    (placed : file = front ++ ((records ++ [terminator]).flatMap codec.encode ++ rest))
    (starts : start.toNat = front.length)
    (small : file.length < UInt64.size) :
    readTable codec ends file start = .ok records := by
  apply readTable_of_tableAt positive small
  rw [placed, starts]
  exact tableAt_written goesOn stops front rest

end HartBoot.ImageFile
