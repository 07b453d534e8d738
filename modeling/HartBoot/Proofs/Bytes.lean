import HartBoot.Bytes

/-!
Contract: which bytes a slice consists of, and what is added to bytes that are filled up.

Owns:
- `slice?_eq_some_iff`, when there is a slice, and which one;
- what becomes of a slice when the bytes around it, or one of its own bytes, are replaced, or when
  the bytes are cut off;
- the padding of bytes that stand behind a multiple of the unit: it is their own.

Does not own: what is read from a slice.
-/

namespace HartBoot

/-! ## Padding -/

section Padding

variable {front size unit : Nat}

theorem paddingFor_of_aligned (aligned : size % unit = 0) : paddingFor size unit = 0 := by
  rw [paddingFor, aligned, Nat.sub_zero, Nat.mod_self]

/-- What stands in front does not matter if it fills its units. -/
theorem paddingFor_add (aligned : front % unit = 0) :
    paddingFor (front + size) unit = paddingFor size unit := by
  rw [paddingFor, paddingFor, Nat.add_mod, aligned, Nat.zero_add, Nat.mod_mod]

end Padding

namespace Bytes

variable {bytes left right : Bytes} {start size : Nat}

theorem padTo_of_aligned {unit : Nat} (aligned : bytes.length % unit = 0) :
    bytes.padTo unit = bytes := by
  rw [padTo, paddingFor_of_aligned aligned]
  exact List.append_nil bytes

/-- Filling up a whole file fills up what was written last. -/
theorem padTo_append {unit : Nat} (aligned : left.length % unit = 0) :
    padTo (left ++ right) unit = left ++ padTo right unit := by
  rw [padTo, padTo, List.length_append, paddingFor_add aligned, List.append_assoc]

/-! ## Slices -/

theorem slice?_eq_some_iff {part : Bytes} :
    bytes.slice? start size = some part ↔
      start + size ≤ bytes.length ∧ (bytes.drop start).take size = part := by
  unfold slice?
  by_cases inside : start + size ≤ bytes.length
  · rw [if_pos inside]
    simp [inside]
  · rw [if_neg inside]
    simp [inside]

/-- The front of some bytes has the slices that end inside it, and no others. -/
theorem slice?_take_eq_some_iff {part : Bytes} {count : Nat} :
    slice? (bytes.take count) start size = some part ↔
      bytes.slice? start size = some part ∧ start + size ≤ count := by
  rw [slice?_eq_some_iff, slice?_eq_some_iff, List.length_take, Nat.le_min]
  have kept (inside : start + size ≤ count) :
      ((bytes.take count).drop start).take size = (bytes.drop start).take size := by
    have room : size ≤ count - start := by omega
    rw [List.drop_take, List.take_take, Nat.min_eq_left room]
  constructor
  · intro found
    rcases found with ⟨⟨before, inside⟩, same⟩
    exact ⟨⟨inside, (kept before).symm.trans same⟩, before⟩
  · intro found
    rcases found with ⟨⟨inside, same⟩, before⟩
    exact ⟨⟨before, inside⟩, (kept before).trans same⟩

/-- A slice consists of the bytes of its region. -/
theorem getElem?_of_slice?
    {part : Bytes}
    (found : bytes.slice? start size = some part)
    {offset : Nat}
    (inside : offset < size) :
    part[offset]? = bytes[start + offset]? := by
  obtain ⟨-, rfl⟩ := slice?_eq_some_iff.mp found
  rw [List.getElem?_take_of_lt inside, List.getElem?_drop]

/-- Files of the same length that agree on a region have the same slice there. -/
theorem slice?_congr
    (lengths : left.length = right.length)
    (agree : ∀ index, start ≤ index → index < start + size → left[index]? = right[index]?) :
    left.slice? start size = right.slice? start size := by
  have same : (left.drop start).take size = (right.drop start).take size := by
    apply List.ext_getElem?
    intro offset
    by_cases inside : offset < size
    · rw [List.getElem?_take_of_lt inside, List.getElem?_take_of_lt inside, List.getElem?_drop,
        List.getElem?_drop]
      exact agree (start + offset) (by omega) (by omega)
    · rw [List.getElem?_take_eq_none (Nat.le_of_not_lt inside),
        List.getElem?_take_eq_none (Nat.le_of_not_lt inside)]
  unfold slice?
  rw [lengths, same]

/-- The slice around a byte that is replaced. -/
theorem slice?_set
    {part : Bytes}
    {position : Nat}
    (found : bytes.slice? start size = some part)
    (behind : start ≤ position)
    (value : UInt8) :
    slice? (bytes.set position value) start size = some (part.set (position - start) value) := by
  obtain ⟨inside, rfl⟩ := slice?_eq_some_iff.mp found
  rw [slice?_eq_some_iff, List.length_set, List.drop_set, if_neg (Nat.not_lt_of_le behind),
    List.take_set]
  exact ⟨inside, rfl⟩

end Bytes

end HartBoot
