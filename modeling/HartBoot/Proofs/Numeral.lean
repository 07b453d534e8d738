import HartBoot.Numeral
import HartBoot.Proofs.Text.Blank
import Mathlib.Data.Nat.Digits.Lemmas
import Mathlib.Tactic.Ring
import Mathlib.Tactic.SplitIfs

/-!
Contract: the numbers that a configuration can write, and how.

Owns:
- `Denotes`, the digits of a number in a base, by the value of each digit and its place;
- `Spells`, the ways to write a number: three bases with their marks, and an optional `+`;
- the law of numerals: a text is read as a word exactly when it spells the word between blanks, and
  so what is printed in one of the bases is read back.

Does not own: truth values (see `HartBoot.Numeral`), nor what blanks are (see
`HartBoot.Proofs.Text.Blank`).
-/

namespace HartBoot.Numeral

/-! ## Spellings -/

/-- The digits of a base, the highest one first and the letters in either case, denote a number.
There is at least one digit. -/
def Denotes (base : Nat) (chars : List Char) (number : Nat) : Prop :=
  ∃ values : List Nat,
    values ≠ [] ∧ (∀ value ∈ values, value < base) ∧
      chars.map Char.toLower = values.map Nat.digitChar ∧
      Nat.ofDigits base values.reverse = number

/-- Characters are digits, or a `+` and digits. -/
def Signed (chars digits : List Char) : Prop :=
  chars = digits ∨ chars = '+' :: digits

/-- The ways to write a number. A zero with something behind it is the mark of base eight or a part
of the mark of base sixteen, so a decimal number does not start with one. -/
inductive Spells : List Char → Nat → Prop where
  | hexadecimal {mark : Char} {chars digits : List Char} {number : Nat} :
    mark = 'x' ∨ mark = 'X' → Signed chars digits → Denotes 16 digits number →
    Spells ('0' :: mark :: chars) number
  | octal {chars digits : List Char} {number : Nat} :
    Signed chars digits → Denotes 8 digits number → Spells ('0' :: chars) number
  | zero : Spells ['0'] 0
  | decimal {chars digits : List Char} {number : Nat} :
    chars.head? ≠ some '0' → Signed chars digits → Denotes 10 digits number →
    Spells chars number

/-! ## Digits -/

section Digit

variable {char : Char} {value : Nat}

theorem toNat_digitChar (small : value < 16) :
    (Nat.digitChar value).toNat = if value < 10 then 48 + value else 87 + value := by
  revert value
  decide

theorem toNat_toLower (char : Char) :
    char.toLower.toNat =
      if 65 ≤ char.toNat ∧ char.toNat ≤ 90 then char.toNat + 32 else char.toNat := by
  unfold Char.toLower
  by_cases upper : char.val ≥ 'A'.val ∧ char.val ≤ 'Z'.val
  · rw [dif_pos upper]
    have lower : 65 ≤ char.toNat := UInt32.le_iff_toNat_le.mp upper.1
    have higher : char.toNat ≤ 90 := UInt32.le_iff_toNat_le.mp upper.2
    rw [if_pos ⟨lower, higher⟩]
    change (char.val + 32).toNat = char.toNat + 32
    rw [UInt32.toNat_add]
    change (char.toNat + 32) % 2 ^ 32 = char.toNat + 32
    omega
  · rw [dif_neg upper, if_neg]
    intro between
    exact upper ⟨UInt32.le_iff_toNat_le.mpr between.1, UInt32.le_iff_toNat_le.mpr between.2⟩

/-- The digits of bases up to sixteen by their codes. -/
theorem toLower_eq_digitChar_iff (small : value < 16) :
    char.toLower = Nat.digitChar value ↔
      if value < 10 then char.toNat = 48 + value
      else char.toNat = 55 + value ∨ char.toNat = 87 + value := by
  rw [← Char.toNat_inj, toNat_toLower, toNat_digitChar small]
  split_ifs <;> omega

theorem digitValue?_eq_some_iff :
    digitValue? char = some value ↔ value < 16 ∧ char.toLower = Nat.digitChar value := by
  have codes : digitValue? char = some value ↔
      value < 16 ∧
        if value < 10 then char.toNat = 48 + value
        else char.toNat = 55 + value ∨ char.toNat = 87 + value := by
    unfold digitValue?
    simp only [Char.le_def, UInt32.le_iff_toNat_le]
    change (if 48 ≤ char.toNat ∧ char.toNat ≤ 57 then some (char.toNat - 48)
      else if 97 ≤ char.toNat ∧ char.toNat ≤ 102 then some (char.toNat - 97 + 10)
      else if 65 ≤ char.toNat ∧ char.toNat ≤ 70 then some (char.toNat - 65 + 10)
      else none) = some value ↔ _
    split_ifs <;> simp only [Option.some.injEq, false_iff] <;> omega
  rw [codes]
  exact and_congr_right fun small => (toLower_eq_digitChar_iff small).symm

theorem digitIn?_eq_some_iff {base : Nat} (bounded : base ≤ 16) :
    digitIn? base char = some value ↔ value < base ∧ char.toLower = Nat.digitChar value := by
  rw [digitIn?, Option.filter_eq_some_iff, digitValue?_eq_some_iff, decide_eq_true_iff]
  constructor
  · intro found
    exact ⟨found.2, found.1.2⟩
  · intro found
    exact ⟨⟨by omega, found.2⟩, found.1⟩

end Digit

section Number

variable {base number : Nat} {chars digits : List Char}

theorem digitsFrom?_eq_some_iff (bounded : base ≤ 16) {before : Nat} :
    digitsFrom? base before chars = some number ↔
      ∃ values : List Nat,
        (∀ value ∈ values, value < base) ∧
          chars.map Char.toLower = values.map Nat.digitChar ∧
          Nat.ofDigits base (values.reverse ++ [before]) = number := by
  induction chars generalizing before with
  | nil => simp [digitsFrom?]
  | cons char rest inductionHypothesis =>
    -- The next digit moves what was read before up by one place.
    have moved (values : List Nat) (digit : Nat) :
        Nat.ofDigits base (values.reverse ++ [before * base + digit]) =
          Nat.ofDigits base ((digit :: values).reverse ++ [before]) := by
      simp only [List.reverse_cons, List.append_assoc, List.singleton_append, Nat.ofDigits_append,
        Nat.ofDigits_cons, Nat.ofDigits_nil]
      ring
    rw [digitsFrom?]
    constructor
    · intro read
      split at read
      case h_1 digit found =>
        obtain ⟨small, shape⟩ := (digitIn?_eq_some_iff bounded).mp found
        obtain ⟨values, others, shapes, total⟩ := inductionHypothesis.mp read
        refine ⟨digit :: values, ?_, ?_, (moved values digit).symm.trans total⟩
        · exact List.forall_mem_cons.mpr ⟨small, others⟩
        · rw [List.map_cons, List.map_cons, shape, shapes]
      case h_2 => cases read
    · rintro ⟨values, small, shapes, total⟩
      cases values with
      | nil => cases shapes
      | cons digit values =>
        obtain ⟨first, others⟩ := List.forall_mem_cons.mp small
        obtain ⟨shape, shapes⟩ := List.cons.inj shapes
        rw [(digitIn?_eq_some_iff bounded).mpr ⟨first, shape⟩]
        exact inductionHypothesis.mpr ⟨values, others, shapes, (moved values digit).trans total⟩

theorem denotes_iff (bounded : base ≤ 16) :
    Denotes base chars number ↔ chars ≠ [] ∧ digitsFrom? base 0 chars = some number := by
  rw [digitsFrom?_eq_some_iff bounded]
  simp only [Nat.ofDigits_append_zero]
  constructor
  · rintro ⟨values, filled, small, shapes, total⟩
    refine ⟨?_, values, small, shapes, total⟩
    rintro rfl
    exact filled (List.map_eq_nil_iff.mp shapes.symm)
  · rintro ⟨filled, values, small, shapes, total⟩
    refine ⟨values, ?_, small, shapes, total⟩
    rintro rfl
    exact filled (List.map_eq_nil_iff.mp shapes)

/-- Every digit has a value. -/
theorem Denotes.exists_digit (denoted : Denotes base digits number) :
    ∀ char ∈ digits, ∃ value < base, char.toLower = Nat.digitChar value := by
  obtain ⟨values, -, small, shapes, -⟩ := denoted
  intro char member
  have shaped : char.toLower ∈ values.map Nat.digitChar :=
    shapes ▸ List.mem_map_of_mem member
  obtain ⟨value, listed, same⟩ := List.mem_map.mp shaped
  exact ⟨value, small value listed, same.symm⟩

/-! ## Signs and marks -/

/-- No digit is a `+`. -/
theorem Denotes.dropPlus_eq (denoted : Denotes base digits number) : dropPlus digits = digits := by
  unfold dropPlus
  split
  case h_1 rest =>
    obtain ⟨value, -, shape⟩ := denoted.exists_digit '+' List.mem_cons_self
    exact absurd shape.symm (Nat.digitChar_ne '+' (by decide))
  case h_2 => rfl

theorem magnitude?_eq_some_iff (bounded : base ≤ 16) :
    magnitude? base chars = some number ↔
      ∃ digits, Signed chars digits ∧ Denotes base digits number := by
  have unsigned : magnitude? base chars = some number ↔ Denotes base (dropPlus chars) number := by
    rw [denotes_iff bounded, magnitude?]
    cases dropPlus chars with
    | nil => simp
    | cons char rest => simp
  rw [unsigned]
  constructor
  · intro denoted
    refine ⟨dropPlus chars, ?_, denoted⟩
    unfold dropPlus
    split
    case h_1 => exact .inr rfl
    case h_2 => exact .inl rfl
  · rintro ⟨digits, rfl | rfl, denoted⟩
    · rwa [denoted.dropPlus_eq]
    · exact denoted

/-- Behind a mark stands a `+` or a digit. -/
theorem Signed.exists_first
    (signed : Signed chars digits)
    (denoted : Denotes base digits number) :
    ∃ first rest, chars = first :: rest ∧
      (first = '+' ∨ ∃ value < base, first.toLower = Nat.digitChar value) := by
  rcases signed with rfl | rfl
  · cases chars with
    | nil =>
      obtain ⟨values, filled, -, shapes, -⟩ := denoted
      exact absurd (List.map_eq_nil_iff.mp shapes.symm) filled
    | cons first rest =>
      exact ⟨first, rest, rfl, .inr (denoted.exists_digit first List.mem_cons_self)⟩
  · exact ⟨'+', digits, rfl, .inl rfl⟩

/-- No mark of base sixteen is a `+` or an octal digit. -/
theorem not_mark_of_octal
    {first : Char}
    (shape : first = '+' ∨ ∃ value < 8, first.toLower = Nat.digitChar value) :
    first ≠ 'x' ∧ first ≠ 'X' := by
  have digitless : ∀ value < 8, 'x' ≠ Nat.digitChar value := by decide
  rcases shape with rfl | ⟨value, small, same⟩
  · decide
  · constructor
    · rintro rfl
      exact digitless value small same
    · rintro rfl
      exact digitless value small same

theorem unbounded?_of_octal (signed : Signed chars digits) (denoted : Denotes 8 digits number) :
    unbounded? ('0' :: chars) = magnitude? 8 chars := by
  obtain ⟨first, rest, rfl, shape⟩ := signed.exists_first denoted
  obtain ⟨notLower, notUpper⟩ := not_mark_of_octal shape
  rw [unbounded?]
  · exact notLower
  · exact notUpper

theorem unbounded?_of_head (head : chars.head? ≠ some '0') :
    unbounded? chars = magnitude? 10 chars := by
  unfold unbounded?
  split
  case h_4 => rfl
  all_goals exact absurd rfl head

theorem unbounded?_eq_some_iff : unbounded? chars = some number ↔ Spells chars number := by
  constructor
  · intro read
    unfold unbounded? at read
    split at read
    case h_1 =>
      obtain ⟨digits, signed, denoted⟩ := (magnitude?_eq_some_iff (by decide)).mp read
      exact .hexadecimal (.inl rfl) signed denoted
    case h_2 =>
      obtain ⟨digits, signed, denoted⟩ := (magnitude?_eq_some_iff (by decide)).mp read
      exact .hexadecimal (.inr rfl) signed denoted
    case h_3 =>
      obtain ⟨digits, signed, denoted⟩ := (magnitude?_eq_some_iff (by decide)).mp read
      exact .octal signed denoted
    case h_4 long =>
      by_cases head : chars.head? = some '0'
      · -- A zero with anything behind it has been looked at before.
        obtain ⟨rest, rfl⟩ := List.head?_eq_some_iff.mp head
        cases rest with
        | nil =>
          have zero : magnitude? 10 ['0'] = some 0 := by decide
          obtain rfl := Option.some.inj (zero.symm.trans read)
          exact .zero
        | cons next rest => exact absurd rfl (long next rest)
      · obtain ⟨digits, signed, denoted⟩ := (magnitude?_eq_some_iff (by decide)).mp read
        exact .decimal head signed denoted
  · intro spelled
    cases spelled with
    | hexadecimal marked signed denoted =>
      rcases marked with rfl | rfl
      · exact (magnitude?_eq_some_iff (by decide)).mpr ⟨_, signed, denoted⟩
      · exact (magnitude?_eq_some_iff (by decide)).mpr ⟨_, signed, denoted⟩
    | octal signed denoted =>
      rw [unbounded?_of_octal signed denoted]
      exact (magnitude?_eq_some_iff (by decide)).mpr ⟨_, signed, denoted⟩
    | zero => decide
    | decimal head signed denoted =>
      rw [unbounded?_of_head head]
      exact (magnitude?_eq_some_iff (by decide)).mpr ⟨_, signed, denoted⟩

end Number

/-! ## Printed numbers -/

section Printed

variable {base number : Nat} {digits : List Char}

theorem exists_values_toDigits (nontrivial : 1 < base) (number : Nat) :
    ∃ values : List Nat,
      values ≠ [] ∧ (∀ value ∈ values, value < base) ∧
        Nat.toDigits base number = values.map Nat.digitChar ∧
        Nat.ofDigits base values.reverse = number := by
  induction number using Nat.strong_induction_on with
  | h number inductionHypothesis =>
    rw [Nat.toDigits_eq_if nontrivial]
    by_cases small : number < base
    · refine ⟨[number], List.cons_ne_nil _ _, ?_, if_pos small, Nat.ofDigits_singleton⟩
      exact List.forall_mem_singleton.mpr small
    · have less : number / base < number := Nat.div_lt_self (by omega) nontrivial
      obtain ⟨values, -, bounded, shapes, total⟩ := inductionHypothesis (number / base) less
      refine ⟨values ++ [number % base], by simp, ?_, ?_, ?_⟩
      · refine List.forall_mem_append.mpr ⟨bounded, List.forall_mem_singleton.mpr ?_⟩
        exact Nat.mod_lt number (by omega)
      · rw [if_neg small, shapes, List.map_append, List.map_singleton]
      · rw [List.reverse_append, List.reverse_singleton, List.singleton_append, Nat.ofDigits_cons,
          total, Nat.mod_add_div]

/-- Printed digits denote the number that was printed, also with letters in the other case. -/
theorem denotes_of_printed
    (nontrivial : 1 < base)
    (printed : digits.map Char.toLower = Nat.toDigits base number) :
    Denotes base digits number := by
  obtain ⟨values, filled, small, shapes, total⟩ := exists_values_toDigits nontrivial number
  exact ⟨values, filled, small, printed.trans shapes, total⟩

theorem map_toLower_toDigits (nontrivial : 1 < base) (bounded : base ≤ 16) (number : Nat) :
    (Nat.toDigits base number).map Char.toLower = Nat.toDigits base number := by
  have lower : ∀ value < 16, (Nat.digitChar value).toLower = Nat.digitChar value := by decide
  obtain ⟨values, -, small, shapes, -⟩ := exists_values_toDigits nontrivial number
  rw [shapes, List.map_map]
  refine List.map_congr_left fun value member => lower value ?_
  exact Nat.lt_of_lt_of_le (small value member) bounded

/-- Zeros in front do not change the number. -/
theorem Denotes.behind_zeros
    (denoted : Denotes base digits number)
    (positive : 0 < base)
    (zeros : Nat) :
    Denotes base (List.replicate zeros '0' ++ digits) number := by
  obtain ⟨values, filled, small, shapes, total⟩ := denoted
  refine ⟨List.replicate zeros 0 ++ values, ?_, ?_, ?_, ?_⟩
  · exact List.append_ne_nil_of_right_ne_nil _ filled
  · refine List.forall_mem_append.mpr ⟨?_, small⟩
    intro value member
    rwa [List.eq_of_mem_replicate member]
  · rw [List.map_append, List.map_append, shapes, List.map_replicate, List.map_replicate]
    rfl
  · rw [List.reverse_append, List.reverse_replicate, Nat.ofDigits_append_replicate_zero, total]

theorem head?_toDigits_ne_zero (nontrivial : 1 < base) (nonzero : number ≠ 0) :
    (Nat.toDigits base number).head? ≠ some '0' := by
  induction number using Nat.strong_induction_on with
  | h number inductionHypothesis =>
    rw [Nat.toDigits_eq_if nontrivial]
    by_cases small : number < base
    · rw [if_pos small, List.head?_singleton, ne_eq, Option.some.injEq, Nat.digitChar_eq_zero]
      exact nonzero
    · have less : number / base < number := Nat.div_lt_self (by omega) nontrivial
      have front : number / base ≠ 0 := by
        have quotient : 0 < number / base := Nat.div_pos (by omega) (by omega)
        omega
      rw [if_neg small, List.head?_append_of_ne_nil _ Nat.toDigits_ne_nil]
      exact inductionHypothesis (number / base) less front

theorem spells_decimal (number : Nat) : Spells (Nat.toDigits 10 number) number := by
  by_cases zero : number = 0
  · subst zero
    exact .zero
  · have denoted : Denotes 10 (Nat.toDigits 10 number) number :=
      denotes_of_printed (by decide) (map_toLower_toDigits (by decide) (by decide) number)
    exact .decimal (head?_toDigits_ne_zero (by decide) zero) (.inl rfl) denoted

end Printed

/-! ## Texts -/

section Text

variable {chars : List Char} {number : Nat}

theorem not_isBlank_of_code {char : Char} (low : 33 ≤ char.toNat) (high : char.toNat ≤ 126) :
    ¬ Text.isBlank char := by
  unfold Text.isBlank
  simp only [Bool.or_eq_true, Bool.and_eq_true, decide_eq_true_iff, beq_iff_eq]
  omega

theorem not_isBlank_of_digit
    {char : Char}
    {value : Nat}
    (small : value < 16)
    (shape : char.toLower = Nat.digitChar value) :
    ¬ Text.isBlank char := by
  rw [toLower_eq_digitChar_iff small] at shape
  split at shape <;> exact not_isBlank_of_code (by omega) (by omega)

theorem Signed.not_isBlank
    {base : Nat}
    {digits : List Char}
    (signed : Signed chars digits)
    (denoted : Denotes base digits number)
    (bounded : base ≤ 16) :
    ∀ char ∈ chars, ¬ Text.isBlank char := by
  have blankless : ∀ char ∈ digits, ¬ Text.isBlank char := by
    intro char member
    obtain ⟨value, small, shape⟩ := denoted.exists_digit char member
    exact not_isBlank_of_digit (Nat.lt_of_lt_of_le small bounded) shape
  rcases signed with rfl | rfl
  · exact blankless
  · exact List.forall_mem_cons.mpr ⟨by decide, blankless⟩

/-- Nothing in a numeral is a blank. -/
theorem Spells.not_isBlank (spelled : Spells chars number) :
    ∀ char ∈ chars, ¬ Text.isBlank char := by
  cases spelled with
  | hexadecimal marked signed denoted =>
    have rest := signed.not_isBlank denoted (by decide)
    rcases marked with rfl | rfl <;>
      exact List.forall_mem_cons.mpr ⟨by decide, List.forall_mem_cons.mpr ⟨by decide, rest⟩⟩
  | octal signed denoted =>
    exact List.forall_mem_cons.mpr ⟨by decide, signed.not_isBlank denoted (by decide)⟩
  | zero => exact List.forall_mem_singleton.mpr (by decide)
  | decimal _ signed denoted => exact signed.not_isBlank denoted (by decide)

theorem Spells.trimmed (spelled : Spells chars number) : Text.Trimmed chars chars where
  around := ⟨[], [], by simp, by simp, by simp⟩
  first char member := spelled.not_isBlank char (List.mem_of_mem_head? member)
  last char member := spelled.not_isBlank char (List.mem_of_getLast? member)

/-- A number as a word of sixty-four bits, if it fits. -/
def word? (number : Nat) : Option UInt64 :=
  if number < UInt64.size then some (UInt64.ofNat number) else none

theorem word?_eq_some_iff {word : UInt64} : word? number = some word ↔ word.toNat = number := by
  unfold word?
  constructor
  · intro fits
    split at fits
    case isTrue small =>
      obtain rfl := Option.some.inj fits
      exact UInt64.toNat_ofNat_of_lt' small
    case isFalse => cases fits
  · rintro rfl
    rw [if_pos word.toNat_lt_size, UInt64.ofNat_toNat]

theorem read?_of_trimmed {text : String} (trimmed : Text.Trimmed text.toList chars) :
    read? text = (unbounded? chars).bind word? := by
  rw [read?, ← trimmed.eq_trimBlanks]
  cases unbounded? chars <;> rfl

theorem read?_of_spells (spelled : Spells chars number) :
    read? (String.ofList chars) = word? number := by
  have trimmed : Text.Trimmed (String.ofList chars).toList chars := by
    rw [String.toList_ofList]
    exact spelled.trimmed
  rw [read?_of_trimmed trimmed, unbounded?_eq_some_iff.mpr spelled]
  rfl

theorem read?_eq_some_iff {text : String} {word : UInt64} :
    read? text = some word ↔
      ∃ kept, Text.Trimmed text.toList kept ∧ Spells kept word.toNat := by
  constructor
  · intro read
    rw [read?_of_trimmed (Text.trimmed_trimBlanks _), Option.bind_eq_some_iff] at read
    obtain ⟨number, denoted, fits⟩ := read
    obtain rfl := word?_eq_some_iff.mp fits
    exact ⟨_, Text.trimmed_trimBlanks _, unbounded?_eq_some_iff.mp denoted⟩
  · rintro ⟨kept, trimmed, spelled⟩
    rw [read?_of_trimmed trimmed, unbounded?_eq_some_iff.mpr spelled]
    exact word?_eq_some_iff.mpr rfl

end Text

/-- A text is read as a word exactly when it spells the word between blanks. So a number that is
printed in decimal, or behind a mark in hexadecimal or octal with any zeros in front, is read back,
unless it is too large for a word: then nothing is read. -/
theorem read_exactly_spelled (text : String) (number zeros : Nat) :
    (∀ word,
        read? text = some word ↔
          ∃ kept, Text.Trimmed text.toList kept ∧ Spells kept word.toNat) ∧
      read? (toString number) = word? number ∧
      (∀ mark digits, mark = 'x' ∨ mark = 'X' →
        digits.map Char.toLower = Nat.toDigits 16 number →
          read? (String.ofList ('0' :: mark :: (List.replicate zeros '0' ++ digits))) =
            word? number) ∧
      read? (String.ofList ('0' :: (List.replicate zeros '0' ++ Nat.toDigits 8 number))) =
        word? number := by
  refine ⟨fun word => read?_eq_some_iff, ?_, ?_, ?_⟩
  · rw [Nat.toString_eq_repr, Nat.repr_eq_ofList_toDigits]
    exact read?_of_spells (spells_decimal number)
  · intro mark digits marked printed
    have denoted := (denotes_of_printed (by decide) printed).behind_zeros (by decide) zeros
    exact read?_of_spells (.hexadecimal marked (.inl rfl) denoted)
  · have printed : (Nat.toDigits 8 number).map Char.toLower = Nat.toDigits 8 number :=
      map_toLower_toDigits (by decide) (by decide) number
    have denoted := (denotes_of_printed (by decide) printed).behind_zeros (by decide) zeros
    exact read?_of_spells (.octal (.inl rfl) denoted)

/-- A sign stands behind the mark; a mark alone, a second sign, or a digit that is too large for the
base makes no numeral. -/
example :
    [" 0X+fF\t", "0+17", "+010", "00", "0x", "0+", "+0x1", "++1", "08"].map read? =
      [some 255, some 15, some 10, some 0, none, none, none, none, none] := by
  decide

end HartBoot.Numeral
