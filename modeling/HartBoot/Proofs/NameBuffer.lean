import HartBoot.Name
import HartBoot.Proofs.Text.WellFormed

/-!
Contract: a name as it comes back from its buffer.

Owns:
- the zero behind a name, with which its buffer also ends;
- `Name.visible`, what a reader sees of a name;
- `Name.read_buffer`, which says that it is what the buffer of the name holds;
- `EndsBefore`, the part of a list in front of a mark, and the law of reading for any buffer.

Does not own: how a name came about (see `HartBoot.Name`), nor which bytes are well-formed (see
`HartBoot.Proofs.Text.WellFormed`).
-/

namespace HartBoot

/-- A list up to the first place of a mark, or all of it if the mark is not in it. -/
def EndsBefore {α : Type} (mark : α) (list front : List α) : Prop :=
  mark ∉ front ∧ (list = front ∨ ∃ rest, list = front ++ mark :: rest)

theorem endsBefore_takeWhile {α : Type} [DecidableEq α] (mark : α) (list : List α) :
    EndsBefore mark list (list.takeWhile (· != mark)) := by
  induction list with
  | nil => exact ⟨List.not_mem_nil, .inl rfl⟩
  | cons first rest inductionHypothesis =>
    by_cases same : first = mark
    · subst same
      rw [List.takeWhile_cons_of_neg (by simp)]
      exact ⟨List.not_mem_nil, .inr ⟨rest, rfl⟩⟩
    · obtain ⟨unmarked, shape⟩ := inductionHypothesis
      rw [List.takeWhile_cons_of_pos (by simpa using same)]
      constructor
      · simp [unmarked, Ne.symm same]
      · rcases shape with whole | ⟨behind, split⟩
        · exact .inl (congrArg (first :: ·) whole)
        · exact .inr ⟨behind, congrArg (first :: ·) split⟩

namespace Name

/-- The text of a name up to the first NUL character. -/
def visible (name : Name) : String :=
  String.ofList (name.text.toList.takeWhile (· != '\x00'))

/-- There is room for one zero at least behind a name. -/
theorem room_behind (name : Name) :
    bufferSize - (Utf8.encode name.text).length =
      (capacity - (Utf8.encode name.text).length) + 1 := by
  have old := name.fits
  rw [length_encode]
  unfold bufferSize
  omega

/-- A buffer has at least one zero behind its name. -/
theorem buffer_eq_append_zero (name : Name) :
    ∃ rest, name.buffer = Utf8.encode name.text ++ 0 :: rest := by
  refine ⟨Bytes.zeros (capacity - (Utf8.encode name.text).length), ?_⟩
  rw [buffer, room_behind, Bytes.zeros, List.replicate_succ]
  rfl

/-- A buffer ends with a zero. -/
theorem getLast?_buffer (name : Name) : name.buffer.getLast? = some 0 := by
  rw [buffer, room_behind, Bytes.zeros, List.replicate_succ', ← List.append_assoc,
    List.getLast?_concat]

/-- Reading the buffer of a name gives its text up to the first NUL character. -/
theorem read_buffer (name : Name) : read name.buffer = name.visible := by
  obtain ⟨rest, shape⟩ := name.buffer_eq_append_zero
  rw [read, shape, Utf8.encode, Utf8.takeWhile_encodeChars, Utf8.decodeFront_encodeChars]
  rfl

/-- A buffer is read as the longest well-formed part of the bytes in front of its first zero. So
what was written of a name is read up to its first NUL character, and as a whole if it has none. -/
theorem read_longest_before_zero (buffer : Bytes) (name : Name) :
    (∃ front, EndsBefore 0 buffer front ∧
      Utf8.LongestWellFormed front (Utf8.encode (read buffer))) ∧
      EndsBefore '\x00' name.text.toList (read name.buffer).toList ∧
      ('\x00' ∉ name.text.toList → read name.buffer = name.text) := by
  have visible : EndsBefore '\x00' name.text.toList (read name.buffer).toList := by
    rw [read_buffer, Name.visible, String.toList_ofList]
    exact endsBefore_takeWhile _ _
  refine ⟨⟨_, endsBefore_takeWhile 0 buffer, Utf8.longestWellFormed_decodeFront _⟩, visible, ?_⟩
  intro unmarked
  rcases visible.2 with whole | ⟨rest, split⟩
  · exact (String.toList_injective whole).symm
  · rw [split] at unmarked
    exact absurd (by simp) unmarked

end Name

end HartBoot
