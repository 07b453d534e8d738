import Mathlib.Data.List.Basic

/-!
Contract: one thing after the other.

Owns:
- `Trace`, a list of things, each of which leads from one state to the next;
- the rules for traces that are put together, and `Trace.keeps` and `Trace.carries`, which lead
  from what every entry keeps to what the whole list keeps.

Does not own: the states and what leads from one to the next.
-/

namespace HartBoot

variable {α β σ : Type}

/-- The entries of a list lead, one after the other, from one state to another. -/
inductive Trace (leads : α → σ → σ → Prop) : List α → σ → σ → Prop where
  | nil {state : σ} : Trace leads [] state state
  | cons {entry : α} {rest : List α} {before middle after : σ} :
      leads entry before middle → Trace leads rest middle after →
        Trace leads (entry :: rest) before after

namespace Trace

variable {leads : α → σ → σ → Prop} {before after : σ}

@[simp] theorem nil_iff : Trace leads [] before after ↔ before = after := by
  constructor
  · intro trace
    rcases trace with ⟨⟩
    rfl
  · rintro rfl
    exact .nil

theorem cons_iff {entry : α} {rest : List α} :
    Trace leads (entry :: rest) before after ↔
      ∃ middle, leads entry before middle ∧ Trace leads rest middle after := by
  constructor
  · intro trace
    cases trace with
    | cons first others => exact ⟨_, first, others⟩
  · intro trace
    rcases trace with ⟨middle, first, others⟩
    exact .cons first others

@[simp] theorem singleton_iff {entry : α} :
    Trace leads [entry] before after ↔ leads entry before after := by
  simp [cons_iff]

theorem append_iff {first second : List α} :
    Trace leads (first ++ second) before after ↔
      ∃ middle, Trace leads first before middle ∧ Trace leads second middle after := by
  induction first generalizing before with
  | nil => simp
  | cons entry rest inductionHypothesis =>
    simp only [List.cons_append, cons_iff, inductionHypothesis]
    constructor
    · intro trace
      rcases trace with ⟨next, step, middle, front, back⟩
      exact ⟨middle, ⟨next, step, front⟩, back⟩
    · intro trace
      rcases trace with ⟨middle, ⟨next, step, front⟩, back⟩
      exact ⟨next, step, middle, front, back⟩

theorem append
    {first second : List α}
    {middle : σ}
    (front : Trace leads first before middle)
    (back : Trace leads second middle after) :
    Trace leads (first ++ second) before after :=
  append_iff.mpr ⟨middle, front, back⟩

/-- What every entry leads to, the whole list leads to. -/
theorem keeps
    (property : σ → Prop)
    (step : ∀ entry before after, leads entry before after → property before → property after)
    {entries : List α}
    (trace : Trace leads entries before after)
    (start : property before) :
    property after := by
  induction trace with
  | nil => exact start
  | cons first _ inductionHypothesis => exact inductionHypothesis (step _ _ _ first start)

/-- What every entry leads to, from what is known of the entries before it, is known of the whole
list. -/
theorem carries
    (property : List α → σ → Prop)
    (step : ∀ front entry before after, leads entry before after → property front before →
      property (front ++ [entry]) after)
    {entries : List α}
    (trace : Trace leads entries before after)
    (start : property [] before) :
    property entries after := by
  have behind : ∀ front, property front before → property (front ++ entries) after := by
    clear start
    induction trace with
    | nil =>
      intro front known
      rwa [List.append_nil]
    | cons first _ inductionHypothesis =>
      intro front known
      have next := inductionHypothesis _ (step front _ _ _ first known)
      rwa [List.append_assoc] at next
  exact behind [] start

theorem mono
    {other : α → σ → σ → Prop}
    (included : ∀ entry before after, leads entry before after → other entry before after)
    {entries : List α}
    (trace : Trace leads entries before after) :
    Trace other entries before after := by
  induction trace with
  | nil => exact .nil
  | cons first _ inductionHypothesis => exact .cons (included _ _ _ first) inductionHypothesis

theorem map_iff {read : β → α} {entries : List β} :
    Trace leads (entries.map read) before after ↔
      Trace (fun entry => leads (read entry)) entries before after := by
  induction entries generalizing before with
  | nil => simp
  | cons entry rest inductionHypothesis =>
    simp only [List.map_cons, cons_iff, inductionHypothesis]

end Trace

end HartBoot
