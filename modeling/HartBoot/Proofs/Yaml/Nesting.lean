import HartBoot.Yaml.Event
import Mathlib.Data.List.Infix

/-!
Contract: mappings inside of mappings.

Owns:
- `Yaml.depth`, the number of mappings that some events start and do not end;
- `Yaml.Nested`, events in which every end of a mapping belongs to an earlier start, and every
  start has an end.

Does not own: which events a text gives (see `HartBoot.Yaml.Stream`).
-/

namespace HartBoot.Yaml

/-- The start of a mapping counts as one more level, its end as one less. -/
def Event.Kind.climb : Event.Kind → Int
  | .mappingStart => 1
  | .mappingEnd => -1
  | _ => 0

/-- The number of mappings that are started and not ended. -/
def depth : List Event → Int
  | [] => 0
  | event :: rest => event.kind.climb + depth rest

@[simp] theorem depth_nil : depth [] = 0 :=
  rfl

@[simp] theorem depth_cons (event : Event) (rest : List Event) :
    depth (event :: rest) = event.kind.climb + depth rest :=
  rfl

/-- Every end of a mapping has a start before it, and every start has an end. -/
structure Nested (events : List Event) : Prop where
  enclosed : ∀ front back, events = front ++ back → 0 ≤ depth front
  closed : depth events = 0

instance (events : List Event) : Decidable (Nested events) :=
  decidable_of_iff ((∀ front ∈ events.inits, 0 ≤ depth front) ∧ depth events = 0) <| by
    constructor
    · intro nested
      rcases nested with ⟨enclosed, closed⟩
      refine ⟨fun front back split => enclosed front ?_, closed⟩
      exact (List.mem_inits front events).mpr ⟨back, split.symm⟩
    · intro nested
      rcases nested with ⟨enclosed, closed⟩
      refine ⟨fun front inside => ?_, closed⟩
      obtain ⟨back, split⟩ := (List.mem_inits front events).mp inside
      exact enclosed front back split.symm

end HartBoot.Yaml
