import HartBoot.ImageFile.Inspection
import HartBoot.Proofs.Bytes

/-!
Contract: what is written at a place of a file.

Owns:
- `Written`, which says that the bytes at an offset are those of a value;
- `TableAt`, which says that a table starts at an offset and has certain records before the one
  that ends it;
- `Overruns`, which says that the records from an offset on lead beyond the last position;
- the frame rules: what is written in a region depends on the bytes of that region only.

Offsets are added without a bound. A sum that is no word of eight bytes lies behind every file that
is shorter than the address space.

Does not own: how a table is read (see `HartBoot.Proofs.ImageFile.Table`).
-/

namespace HartBoot.ImageFile

/-! ## Values -/

variable {α : Type}

/-- The bytes at an offset of a file are those of a value. -/
def Written (codec : Codec α) (file : Bytes) (offset : Nat) (value : α) : Prop :=
  file.slice? offset codec.width = some (codec.encode value)

section Written

variable {codec : Codec α} {file other : Bytes} {offset : Nat} {value : α}

/-- What is written at an offset is what is read there. -/
theorem written_iff :
    Written codec file offset value ↔
      offset + codec.width ≤ file.length ∧
        codec.decode ((file.drop offset).take codec.width) = value := by
  rw [Written, Bytes.slice?_eq_some_iff]
  refine and_congr_right ?_
  intro room
  have exact_length : ((file.drop offset).take codec.width).length = codec.width := by
    rw [List.length_take, List.length_drop]
    omega
  constructor
  · intro bytes
    rw [bytes, codec.decode_encode]
  · intro read
    rw [← read, codec.encode_decode _ exact_length]

theorem written_append (front : Bytes) (value : α) (rest : Bytes) :
    Written codec (front ++ (codec.encode value ++ rest)) front.length value := by
  have slice := Bytes.slice?_append front (codec.encode value) rest
  rw [codec.length_encode] at slice
  exact slice

theorem Written.inside (written : Written codec file offset value) :
    offset + codec.width ≤ file.length :=
  (written_iff.mp written).1

/-- There is one value at most that is written at an offset. -/
theorem Written.functional
    {second : α}
    (written : Written codec file offset value)
    (again : Written codec file offset second) :
    value = second :=
  (written_iff.mp written).2.symm.trans (written_iff.mp again).2

theorem Written.congr
    (written : Written codec file offset value)
    (lengths : file.length = other.length)
    (agree : ∀ index, offset ≤ index → index < offset + codec.width →
      file[index]? = other[index]?) :
    Written codec other offset value :=
  (Bytes.slice?_congr lengths agree).symm.trans written

end Written

/-! ## Tables -/

/-- From an offset on, a file has some records that go on and then one that ends the table. -/
structure TableAt
    (codec : Codec α)
    (ends : α → Bool)
    (file : Bytes)
    (start : Nat)
    (records : List α) :
    Prop where
  goesOn : ∀ index (inside : index < records.length),
    Written codec file (start + index * codec.width) records[index] ∧ ends records[index] = false
  terminator : ∃ last,
    Written codec file (start + records.length * codec.width) last ∧ ends last

section Table

variable {codec : Codec α} {ends : α → Bool} {file other : Bytes} {start : Nat} {records : List α}

theorem tableAt_nil_iff :
    TableAt codec ends file start [] ↔ ∃ last, Written codec file start last ∧ ends last := by
  constructor
  · intro table
    simpa using table.terminator
  · intro terminator
    exact ⟨fun _ inside => absurd inside (Nat.not_lt_zero _), by simpa using terminator⟩

theorem tableAt_cons_iff {record : α} :
    TableAt codec ends file start (record :: records) ↔
      Written codec file start record ∧ ends record = false ∧
        TableAt codec ends file (start + codec.width) records := by
  have next : ∀ index,
      start + (index + 1) * codec.width = start + codec.width + index * codec.width := by
    intro index
    rw [Nat.succ_mul]
    omega
  constructor
  · intro table
    obtain ⟨written, goesOn⟩ := table.goesOn 0 (Nat.zero_lt_succ _)
    rw [Nat.zero_mul] at written
    refine ⟨written, goesOn, ⟨?_, ?_⟩⟩
    · intro index inside
      rw [← next]
      exact table.goesOn (index + 1) (Nat.succ_lt_succ inside)
    · rw [← next]
      exact table.terminator
  · intro split
    rcases split with ⟨written, goesOn, table⟩
    refine ⟨?_, ?_⟩
    · intro index inside
      cases index with
      | zero =>
        rw [Nat.zero_mul]
        exact ⟨written, goesOn⟩
      | succ index =>
        rw [next]
        exact table.goesOn index (Nat.lt_of_succ_lt_succ inside)
    · rw [List.length_cons, next]
      exact table.terminator

/-- Where a record goes on, no record ends the table. -/
theorem Written.not_ends
    {record last : α}
    (written : Written codec file start record)
    (goesOn : ends record = false)
    (ended : Written codec file start last) :
    ¬ ends last := by
  rw [← written.functional ended, goesOn]
  exact Bool.false_ne_true

/-- There is one table at most that starts at an offset. -/
theorem TableAt.functional
    {second : List α}
    (table : TableAt codec ends file start records)
    (again : TableAt codec ends file start second) :
    records = second := by
  induction records generalizing start second with
  | nil =>
    obtain ⟨last, ended, stops⟩ := tableAt_nil_iff.mp table
    cases second with
    | nil => rfl
    | cons record rest =>
      obtain ⟨written, goesOn, -⟩ := tableAt_cons_iff.mp again
      exact absurd stops (written.not_ends goesOn ended)
  | cons record records inductionHypothesis =>
    obtain ⟨written, goesOn, others⟩ := tableAt_cons_iff.mp table
    cases second with
    | nil =>
      obtain ⟨last, ended, stops⟩ := tableAt_nil_iff.mp again
      exact absurd stops (written.not_ends goesOn ended)
    | cons other rest =>
      obtain ⟨also, -, behind⟩ := tableAt_cons_iff.mp again
      rw [written.functional also, inductionHypothesis others behind]

/-- A table takes up the bytes of its records and of the one that ends it. -/
theorem TableAt.inside (table : TableAt codec ends file start records) :
    start + (records.length + 1) * codec.width ≤ file.length := by
  obtain ⟨last, written, -⟩ := table.terminator
  have room := written.inside
  rw [Nat.succ_mul]
  omega

theorem TableAt.congr
    (table : TableAt codec ends file start records)
    (lengths : file.length = other.length)
    (agree : ∀ index, start ≤ index → index < start + (records.length + 1) * codec.width →
      file[index]? = other[index]?) :
    TableAt codec ends other start records := by
  -- No record of the table reaches beyond its end.
  have within : ∀ count, count ≤ records.length →
      start + count * codec.width + codec.width ≤
        start + (records.length + 1) * codec.width := by
    intro count few
    have scaled := Nat.mul_le_mul_right codec.width few
    rw [Nat.succ_mul]
    omega
  have moved : ∀ count value, count ≤ records.length →
      Written codec file (start + count * codec.width) value →
        Written codec other (start + count * codec.width) value := by
    intro count value few written
    refine written.congr lengths ?_
    intro index behind before
    exact agree index (Nat.le_trans (Nat.le_add_right _ _) behind)
      (Nat.lt_of_lt_of_le before (within count few))
  refine ⟨?_, ?_⟩
  · intro index inside
    obtain ⟨written, goesOn⟩ := table.goesOn index inside
    exact ⟨moved index _ (Nat.le_of_lt inside) written, goesOn⟩
  · obtain ⟨last, written, stops⟩ := table.terminator
    exact ⟨last, moved _ last (Nat.le_refl _) written, stops⟩

end Table

/-! ## Tables without an end -/

/-- From an offset on, a file has some records that go on, and then one whose end would be beyond
the last position. -/
inductive Overruns (codec : Codec α) (ends : α → Bool) (file : Bytes) : Nat → Prop where
  | here {start : Nat} : UInt64.size ≤ start + codec.width → Overruns codec ends file start
  | behind {start : Nat} {record : α} :
    Written codec file start record → ends record = false →
    Overruns codec ends file (start + codec.width) → Overruns codec ends file start

section Overruns

variable {codec : Codec α} {ends : α → Bool} {file whole : Bytes} {start : Nat} {records : List α}

/-- Behind a record that is in front of the last position, the records lead on if it does. -/
theorem overruns_iff_of_written
    {record : α}
    (written : Written codec file start record)
    (inside : start + codec.width < UInt64.size) :
    Overruns codec ends file start ↔
      ends record = false ∧ Overruns codec ends file (start + codec.width) := by
  constructor
  · intro overruns
    cases overruns with
    | here beyond => exact absurd beyond (Nat.not_le_of_lt inside)
    | behind also goesOn further =>
      rw [written.functional also]
      exact ⟨goesOn, further⟩
  · intro further
    exact .behind written further.1 further.2

theorem not_overruns_of_not_written
    (nothing : ∀ record, ¬ Written codec file start record)
    (inside : start + codec.width < UInt64.size) :
    ¬ Overruns codec ends file start := by
  intro overruns
  cases overruns with
  | here beyond => exact absurd beyond (Nat.not_le_of_lt inside)
  | behind written _ _ => exact nothing _ written

/-- The records in front of the end of a table do not lead beyond the last position, also if the
table stands in another file that has at least what is written here. -/
theorem TableAt.not_overruns
    (table : TableAt codec ends whole start records)
    (small : whole.length < UInt64.size)
    (included : ∀ offset value, Written codec file offset value →
      Written codec whole offset value) :
    ¬ Overruns codec ends file start := by
  intro overruns
  induction overruns generalizing records with
  | here beyond =>
    have room := table.inside
    rw [Nat.succ_mul] at room
    omega
  | behind written goesOn _ inductionHypothesis =>
    cases records with
    | nil =>
      obtain ⟨last, ended, stops⟩ := tableAt_nil_iff.mp table
      exact (included _ _ written).not_ends goesOn ended stops
    | cons record records => exact inductionHypothesis (tableAt_cons_iff.mp table).2.2

/-- If a file leaves room for one more record in front of the last position, its records can lead
beyond that position only with the first of them. -/
theorem overruns_iff_of_small (small : file.length + codec.width < UInt64.size) :
    Overruns codec ends file start ↔ UInt64.size ≤ start + codec.width := by
  constructor
  · intro overruns
    induction overruns with
    | here beyond => exact beyond
    | behind written _ _ inductionHypothesis =>
      have room := written.inside
      omega
  · exact .here

end Overruns

end HartBoot.ImageFile
