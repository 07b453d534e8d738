import Mathlib.Data.List.Basic

/-!
Contract: properties of a history, each entry of which is judged by what is before it.

Owns:
- `History.Holds`, which says that every entry has a property at its turn;
- the rules for histories that are put together.

Does not own: what the entries are.
-/

namespace HartBoot.History

variable {α : Type}

/-- Every entry of a history has a property, which may depend on the entries before it. -/
def Holds (property : List α → α → Prop) (history : List α) : Prop :=
  ∀ front entry back, history = front ++ entry :: back → property front entry

variable {property : List α → α → Prop}

@[simp] theorem holds_nil : Holds property [] := by
  intro front entry back impossible
  cases front <;> cases impossible

theorem holds_cons {entry : α} {rest : List α} :
    Holds property (entry :: rest) ↔
      property [] entry ∧ Holds (fun front => property (entry :: front)) rest := by
  constructor
  · intro holds
    refine ⟨holds [] entry rest rfl, ?_⟩
    intro front other back split
    exact holds (entry :: front) other back (by rw [split, List.cons_append])
  · intro holds front other back split
    rcases holds with ⟨first, others⟩
    cases front with
    | nil =>
      obtain ⟨rfl, rfl⟩ := List.cons.inj split
      exact first
    | cons head front =>
      obtain ⟨rfl, tail⟩ := List.cons.inj split
      exact others front other back tail

theorem holds_append {first second : List α} :
    Holds property (first ++ second) ↔
      Holds property first ∧ Holds (fun front => property (first ++ front)) second := by
  induction first generalizing property with
  | nil => simp
  | cons entry rest inductionHypothesis =>
    rw [List.cons_append, holds_cons, holds_cons, inductionHypothesis, and_assoc]
    rfl

theorem holds_and {other : List α → α → Prop} {history : List α} :
    Holds (fun front entry => property front entry ∧ other front entry) history ↔
      Holds property history ∧ Holds other history := by
  constructor
  · intro holds
    exact ⟨fun front entry back split => (holds front entry back split).1,
      fun front entry back split => (holds front entry back split).2⟩
  · intro holds front entry back split
    exact ⟨holds.1 front entry back split, holds.2 front entry back split⟩

theorem holds_map {β : Type} {read : β → α} {history : List β} :
    Holds property (history.map read) ↔
      Holds (fun front entry => property (front.map read) (read entry)) history := by
  induction history generalizing property with
  | nil => simp
  | cons entry rest inductionHypothesis =>
    rw [List.map_cons, holds_cons, holds_cons, inductionHypothesis]
    rfl

/-- A history from which entries have been left out is judged by what is left. -/
theorem holds_filter {keep : α → Bool} {history : List α} :
    Holds property (history.filter keep) ↔
      Holds (fun front entry => keep entry → property (front.filter keep) entry) history := by
  induction history generalizing property with
  | nil => simp
  | cons entry rest inductionHypothesis =>
    rw [holds_cons]
    cases kept : keep entry with
    | true =>
      rw [List.filter_cons_of_pos kept, holds_cons, inductionHypothesis]
      simp [kept]
    | false =>
      rw [List.filter_cons_of_neg (by simp [kept]), inductionHypothesis]
      simp [kept]

theorem holds_congr
    {other : List α → α → Prop}
    (same : ∀ front entry, property front entry ↔ other front entry)
    {history : List α} :
    Holds property history ↔ Holds other history := by
  have equal : property = other :=
    funext fun front => funext fun entry => propext (same front entry)
  rw [equal]

end HartBoot.History
