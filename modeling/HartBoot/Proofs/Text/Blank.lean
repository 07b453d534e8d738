import HartBoot.Text.Blank
import Mathlib.Data.List.TakeWhile

/-!
Contract: what is left of a value when the blanks around it are taken away.

Owns:
- `Trimmed`, which says of some characters that they are what is left of others;
- `trimmed_trimBlanks` and `Trimmed.eq_trimBlanks`, which say that `trimBlanks` gives them and that
  there are no others.

Does not own: the characters that are blanks (see `HartBoot.Text.Blank`).
-/

namespace HartBoot.Text

/-- Some characters are others without the blanks in front of them and behind them, and they
neither start nor end with a blank. -/
structure Trimmed (chars kept : List Char) : Prop where
  around : ∃ front back, chars = front ++ kept ++ back ∧
    (∀ char ∈ front, isBlank char) ∧ ∀ char ∈ back, isBlank char
  first : ∀ char ∈ kept.head?, ¬ isBlank char
  last : ∀ char ∈ kept.getLast?, ¬ isBlank char

/-! ## Blanks in front -/

section Front

variable {kept : List Char}

theorem not_isBlank_of_mem_head?_dropWhile
    (chars : List Char)
    {char : Char}
    (member : char ∈ (chars.dropWhile isBlank).head?) :
    ¬ isBlank char := by
  have stopped := List.head?_dropWhile_not isBlank chars
  rw [Option.mem_def.mp member] at stopped
  simpa using stopped

theorem dropWhile_of_first (first : ∀ char ∈ kept.head?, ¬ isBlank char) :
    kept.dropWhile isBlank = kept := by
  cases kept with
  | nil => rfl
  | cons char rest => exact List.dropWhile_cons_of_neg (first char rfl)

/-- Blanks that stand in front of something are dropped, and nothing else is. -/
theorem dropWhile_append
    {front : List Char}
    (blank : ∀ char ∈ front, isBlank char)
    (first : ∀ char ∈ kept.head?, ¬ isBlank char) :
    (front ++ kept).dropWhile isBlank = kept := by
  rw [List.dropWhile_append_of_pos blank]
  exact dropWhile_of_first first

end Front

/-! ## Blanks at both ends -/

theorem exists_blanks_behind (chars : List Char) :
    ∃ back, chars = (chars.reverse.dropWhile isBlank).reverse ++ back ∧
      ∀ char ∈ back, isBlank char := by
  refine ⟨(chars.reverse.takeWhile isBlank).reverse, ?_, ?_⟩
  · rw [← List.reverse_append, List.takeWhile_append_dropWhile, List.reverse_reverse]
  · exact fun char member => List.mem_takeWhile_imp (List.mem_reverse.mp member)

theorem trimmed_trimBlanks (chars : List Char) : Trimmed chars (trimBlanks chars) := by
  obtain ⟨back, split, blank⟩ := exists_blanks_behind (chars.dropWhile isBlank)
  refine ⟨⟨chars.takeWhile isBlank, back, ?_, ?_, blank⟩, ?_, ?_⟩
  · rw [List.append_assoc, trimBlanks, ← split, List.takeWhile_append_dropWhile]
  · exact fun char member => List.mem_takeWhile_imp member
  · -- What is left starts with the first character behind the blanks in front.
    intro char member
    refine not_isBlank_of_mem_head?_dropWhile chars ?_
    rw [trimBlanks] at member
    rw [split, Option.mem_def, List.head?_append, Option.mem_def.mp member]
    rfl
  · intro char member
    refine not_isBlank_of_mem_head?_dropWhile (chars.dropWhile isBlank).reverse ?_
    rwa [trimBlanks, List.getLast?_reverse] at member

/-- What is left is determined. -/
theorem Trimmed.eq_trimBlanks {chars kept : List Char} (trimmed : Trimmed chars kept) :
    kept = trimBlanks chars := by
  obtain ⟨⟨front, back, rfl, frontBlank, backBlank⟩, first, last⟩ := trimmed
  cases kept with
  | nil =>
    have blank : ∀ char ∈ front ++ [] ++ back, isBlank char := by
      intro char member
      rw [List.append_nil] at member
      rcases List.mem_append.mp member with early | late
      · exact frontBlank char early
      · exact backBlank char late
    rw [trimBlanks, List.dropWhile_eq_nil_iff.mpr blank]
    rfl
  | cons char rest =>
    have starts : ∀ other ∈ (char :: rest ++ back).head?, ¬ isBlank other := first
    have ends : ∀ other ∈ (char :: rest).reverse.head?, ¬ isBlank other := by
      rwa [List.head?_reverse]
    have blank : ∀ other ∈ back.reverse, isBlank other := fun other member =>
      backBlank other (List.mem_reverse.mp member)
    rw [trimBlanks, List.append_assoc, dropWhile_append frontBlank starts, List.reverse_append,
      dropWhile_append blank ends, List.reverse_reverse]

end HartBoot.Text
