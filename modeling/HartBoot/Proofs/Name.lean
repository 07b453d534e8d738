import HartBoot.Proofs.NameBuffer
import Mathlib.Data.List.Infix

/-!
Contract: what appending a text does to a name.

Owns:
- `LongestFitting`, the longest front of a text, in whole characters, that fits into some bytes;
- `Name.append`, appending as a procedure that tries the whole text first and then one character
  after the other, and its equality with `Name.push`;
- `Name.Takes`, what one append does to the text of a name, and the law for all operations and for
  any number of them.

Does not own: names that are made of several texts (see `HartBoot.Proofs.Config.SetName`), nor what
is read back from a buffer (see `HartBoot.Proofs.NameBuffer`).
-/

namespace HartBoot

/-- A text is the longest front of another one, in whole characters, that fits into a number of
bytes. -/
structure LongestFitting (room : Nat) (text kept : String) : Prop where
  front : kept.toList <+: text.toList
  fits : kept.utf8ByteSize ≤ room
  longest : ∀ other : String, other.toList <+: text.toList → other.utf8ByteSize ≤ room →
    other.toList <+: kept.toList

/-- A text is kept as a whole exactly when all of it fits. -/
theorem LongestFitting.eq_iff
    {room : Nat}
    {text kept : String}
    (longest : LongestFitting room text kept) :
    kept = text ↔ text.utf8ByteSize ≤ room := by
  constructor
  · rintro rfl
    exact longest.fits
  · intro small
    have whole := longest.longest text (List.prefix_refl _) small
    exact String.toList_injective (longest.front.eq_of_length_le whole.length_le)

namespace Name

/-! ## Fronts that fit -/

section Fitting

variable {room : Nat} {chars : List Char}

theorem byteCount_toList (text : String) : byteCount text.toList = text.utf8ByteSize := by
  rw [← utf8ByteSize_ofList, String.ofList_toList]

theorem fitting_front (room : Nat) (chars : List Char) : fitting room chars <+: chars := by
  induction chars generalizing room with
  | nil => exact List.prefix_refl []
  | cons char rest inductionHypothesis =>
    unfold fitting
    split
    · exact List.cons_prefix_cons.mpr ⟨rfl, inductionHypothesis (room - char.utf8Size)⟩
    · exact List.nil_prefix

/-- A front that fits is not cut: none of its characters is the first that does not fit. -/
theorem front_fitting
    {other : List Char}
    (front : other <+: chars)
    (small : byteCount other ≤ room) :
    other <+: fitting room chars := by
  induction chars generalizing room other with
  | nil => exact front
  | cons char rest inductionHypothesis =>
    cases other with
    | nil => exact List.nil_prefix
    | cons first others =>
      obtain ⟨rfl, behind⟩ := List.cons_prefix_cons.mp front
      rw [byteCount] at small
      rw [fitting, if_pos (by omega)]
      exact List.cons_prefix_cons.mpr ⟨rfl, inductionHypothesis behind (by omega)⟩

theorem fitting_of_byteCount_le (small : byteCount chars ≤ room) : fitting room chars = chars :=
  (fitting_front room chars).eq_of_length_le
    (front_fitting (List.prefix_refl chars) small).length_le

theorem longestFitting_fitting (room : Nat) (text : String) :
    LongestFitting room text (String.ofList (fitting room text.toList)) where
  front := by
    rw [String.toList_ofList]
    exact fitting_front room text.toList
  fits := by
    rw [utf8ByteSize_ofList]
    exact byteCount_fitting room text.toList
  longest other front small := by
    rw [String.toList_ofList]
    exact front_fitting front (by rwa [byteCount_toList])

end Fitting

/-! ## One append -/

/-- A name takes the longest front of a text that still fits, and says whether that is all of it. -/
def Takes (name : Name) (text : String) (appended : Appended) : Prop :=
  ∃ kept, LongestFitting (capacity - name.size) text kept ∧
    appended.name.text = name.text ++ kept ∧ (appended.whole ↔ kept = text)

section Push

variable {name : Name} {suffix : String}

@[simp] theorem name_push : (name.push suffix).name = name.extend suffix := by
  unfold push
  split <;> rfl

theorem whole_push_iff :
    (name.push suffix).whole ↔ name.size + suffix.utf8ByteSize ≤ capacity := by
  unfold push
  split
  case isTrue small => exact ⟨fun _ => small, fun _ => rfl⟩
  case isFalse large =>
    constructor
    · intro impossible
      cases impossible
    · intro small
      exact absurd small large

theorem push_takes (name : Name) (suffix : String) : name.Takes suffix (name.push suffix) := by
  have longest := longestFitting_fitting (capacity - name.size) suffix
  have old : name.size ≤ capacity := name.fits
  refine ⟨_, longest, by rw [name_push]; rfl, ?_⟩
  rw [longest.eq_iff, whole_push_iff]
  omega

end Push

theorem ext_text {first second : Name} (same : first.text = second.text) : first = second := by
  cases first
  cases second
  cases same
  rfl

/-! ## Appending as a procedure -/

/-- A name with all of a text behind it, if there is room. -/
def tryAppend? (name : Name) (text : String) : Option Name :=
  if small : name.size + text.utf8ByteSize ≤ capacity then
    some ⟨name.text ++ text, by rwa [String.utf8ByteSize_append]⟩
  else
    none

/-- A name with characters behind it, up to the first for which there is no room. -/
def appendChars (name : Name) : List Char → Name
  | [] => name
  | char :: rest =>
    match name.tryAppend? (String.singleton char) with
    | some longer => longer.appendChars rest
    | none => name

/-- Append a text as a whole, and if there is no room for all of it, character by character. -/
def append (name : Name) (suffix : String) : Name × Bool :=
  match name.tryAppend? suffix with
  | some longer => (longer, true)
  | none => (name.appendChars suffix.toList, false)

section Append

variable {name : Name} {suffix : String}

theorem text_extend_of_room (small : name.size + suffix.utf8ByteSize ≤ capacity) :
    (name.extend suffix).text = name.text ++ suffix := by
  have room : byteCount suffix.toList ≤ capacity - name.size := by
    rw [byteCount_toList]
    omega
  change name.text ++ String.ofList (fitting (capacity - name.size) suffix.toList) = _
  rw [fitting_of_byteCount_le room, String.ofList_toList]

theorem tryAppend?_of_room (small : name.size + suffix.utf8ByteSize ≤ capacity) :
    name.tryAppend? suffix = some (name.extend suffix) := by
  rw [tryAppend?, dif_pos small, Option.some.injEq]
  exact ext_text (text_extend_of_room small).symm

theorem tryAppend?_of_full (full : ¬ name.size + suffix.utf8ByteSize ≤ capacity) :
    name.tryAppend? suffix = none :=
  dif_neg full

/-- Character by character, a name takes the characters that fit. -/
theorem text_appendChars (name : Name) (chars : List Char) :
    (name.appendChars chars).text =
      name.text ++ String.ofList (fitting (capacity - name.size) chars) := by
  induction chars generalizing name with
  | nil => simp [appendChars, fitting]
  | cons char rest inductionHypothesis =>
    have old : name.size ≤ capacity := name.fits
    have width : (String.singleton char).utf8ByteSize = char.utf8Size :=
      String.utf8ByteSize_singleton
    by_cases small : name.size + (String.singleton char).utf8ByteSize ≤ capacity
    · have longer := text_extend_of_room small
      have left : capacity - (name.extend (String.singleton char)).size =
          capacity - name.size - char.utf8Size := by
        unfold size
        rw [longer, String.utf8ByteSize_append, width, Nat.sub_add_eq]
      rw [appendChars, tryAppend?_of_room small, fitting, if_pos (by omega)]
      dsimp only
      rw [inductionHypothesis, left, longer, String.append_assoc, String.ofList_cons]
    · rw [appendChars, tryAppend?_of_full small, fitting, if_neg (by omega)]
      exact String.append_empty.symm

/-- The procedure gives the name and the answer of the closed form. -/
theorem append_eq_push (name : Name) (suffix : String) :
    name.append suffix = ((name.push suffix).name, (name.push suffix).whole) := by
  rw [append, name_push]
  by_cases small : name.size + suffix.utf8ByteSize ≤ capacity
  · rw [tryAppend?_of_room small, whole_push_iff.mpr small]
  · have cut : (name.push suffix).whole = false :=
      Bool.eq_false_iff.mpr fun whole => small (whole_push_iff.mp whole)
    rw [tryAppend?_of_full small, cut]
    exact congrArg (·, false) (ext_text (text_appendChars name suffix.toList))

end Append

/-! ## Joining -/

section Join

variable {name : Name} {suffix : String}

theorem fitting_zero (chars : List Char) : fitting 0 chars = [] := by
  cases chars with
  | nil => rfl
  | cons char rest => exact if_neg (Nat.not_le_of_lt char.utf8Size_pos)

/-- A name that fills its buffer takes nothing more. -/
theorem extend_of_full (full : name.size = capacity) : name.extend suffix = name := by
  apply ext_text
  change name.text ++ String.ofList (fitting (capacity - name.size) suffix.toList) = name.text
  rw [full, Nat.sub_self, fitting_zero]
  exact String.append_empty

theorem isEmpty_iff : name.isEmpty ↔ name.text = "" :=
  beq_iff_eq

theorem join_of_empty (empty : name.text = "") : name.join suffix = name.push suffix :=
  if_pos (isEmpty_iff.mpr empty)

section Filled

variable (filled : name.text ≠ "")
include filled

theorem join_of_room (room : name.size + 1 ≤ capacity) :
    (name.join suffix).name = ((name.push "+").name.push suffix).name ∧
      ((name.join suffix).whole ↔ ((name.push "+").name.push suffix).whole) := by
  have joined : (name.push "+").whole := whole_push_iff.mpr room
  rw [join, if_neg (mt isEmpty_iff.mp filled)]
  dsimp only
  rw [if_pos joined]
  exact ⟨rfl, Iff.rfl⟩

theorem join_of_full (full : ¬ name.size + 1 ≤ capacity) : name.join suffix = name.push "+" := by
  have alone : ¬ (name.push "+").whole := fun whole => full (whole_push_iff.mp whole)
  rw [join, if_neg (mt isEmpty_iff.mp filled)]
  dsimp only
  rw [if_neg alone]

/-- The text is not tried if there is no room for the `+`, but then there is no room for any of it
either. -/
theorem name_join : (name.join suffix).name = ((name.push "+").name.push suffix).name := by
  by_cases room : name.size + 1 ≤ capacity
  · exact (join_of_room filled room).1
  · have old : name.size ≤ capacity := name.fits
    have full : name.size = capacity := by omega
    rw [join_of_full filled room, name_push, name_push, extend_of_full full, extend_of_full full]

theorem whole_join_iff :
    (name.join suffix).whole ↔ name.size + 1 + suffix.utf8ByteSize ≤ capacity := by
  by_cases room : name.size + 1 ≤ capacity
  · have joined : (name.push "+").name.size = name.size + 1 := by
      rw [name_push, size, text_extend_of_room room, String.utf8ByteSize_append]
      rfl
    rw [(join_of_room filled room).2, whole_push_iff, joined]
  · rw [join_of_full filled room, whole_push_iff]
    constructor
    · intro small
      exact absurd small room
    · intro small
      exact absurd (Nat.le_trans (Nat.le_add_right _ _) small) room

/-- Joining says that all was taken exactly when the `+` and the text stand behind the name. -/
theorem whole_join_iff_text :
    (name.join suffix).whole ↔ (name.join suffix).name.text = name.text ++ "+" ++ suffix := by
  rw [whole_join_iff filled]
  constructor
  · intro small
    have room : name.size + 1 ≤ capacity := Nat.le_trans (Nat.le_add_right _ _) small
    have joined : (name.extend "+").text = name.text ++ "+" := text_extend_of_room room
    have rest : (name.extend "+").size + suffix.utf8ByteSize ≤ capacity := by
      rw [size, joined, String.utf8ByteSize_append]
      exact small
    rw [name_join filled, name_push, name_push, text_extend_of_room rest, joined]
  · intro same
    have fits := (name.join suffix).name.fits
    rw [same, String.utf8ByteSize_append, String.utf8ByteSize_append] at fits
    exact fits

end Filled

end Join

/-! ## Any number of operations -/

/-- The operations on a name: it is made of a text, a text takes its place, or a text is appended,
with or without a `+` in front. -/
inductive Edit where
  | create (text : String)
  | replace (text : String)
  | push (text : String)
  | join (text : String)
  deriving Repr

/-- The name behind an operation. What is made or replaced starts from the empty name. -/
def Edit.apply (name : Name) : Edit → Name
  | create text => ofText text
  | replace text => (empty.push text).name
  | push text => (name.push text).name
  | join text => (name.join text).name

/-- The name behind any operations, the first of which finds the empty name. -/
def edited (edits : List Edit) : Name :=
  edits.foldl Edit.apply empty

/-- Appending a text takes the longest front of it that fits, in whole characters, and says whether
that is all; so does putting it in the place of a name, which is then empty. Joining appends a `+`
first unless the name is empty. However often this is done, the bytes of the name are well-formed,
there are at most 255 of them, and its buffer ends with a zero. -/
theorem appends_take_longest_fitting (name : Name) (text : String) (edits : List Edit) :
    name.append text = ((name.push text).name, (name.push text).whole) ∧
      name.Takes text (name.push text) ∧
      (∃ kept, LongestFitting capacity text kept ∧
        (ofText text).text = kept ∧ ((Edit.replace text).apply name).text = kept ∧
        ((empty.push text).whole ↔ kept = text)) ∧
      (name.text = "" → name.join text = name.push text) ∧
      (name.text ≠ "" →
        (name.join text).name = ((name.push "+").name.push text).name ∧
          ((name.join text).whole ↔ (name.join text).name.text = name.text ++ "+" ++ text)) ∧
      Utf8.decode? (Utf8.encode (edited edits).text) = some (edited edits).text ∧
      (Utf8.encode (edited edits).text).length ≤ 255 ∧
      (edited edits).buffer.length = 256 ∧
      (edited edits).buffer.getLast? = some 0 := by
  refine ⟨append_eq_push name text, push_takes name text, ?_, join_of_empty, ?_,
    Utf8.decode?_encode _, ?_, length_buffer _, getLast?_buffer _⟩
  · obtain ⟨kept, longest, same, whole⟩ := push_takes empty text
    have room : capacity - empty.size = capacity := rfl
    have alone : (empty.push text).name.text = kept := same.trans String.empty_append
    exact ⟨kept, room ▸ longest, alone, alone, whole⟩
  · intro filled
    exact ⟨name_join filled, whole_join_iff_text filled⟩
  · rw [length_encode]
    exact (edited edits).fits

end Name

end HartBoot
