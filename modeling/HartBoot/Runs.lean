/-!
Contract: lists as runs of equal elements.

Owns:
- `runs`, the elements of a list with neighbours that are equal counted together;
- `expand`, the list that such runs stand for.

Does not own: which elements are counted.
-/

namespace HartBoot

variable {α : Type} [DecidableEq α]

def extendRuns (element : α) : List (α × Nat) → List (α × Nat)
  | [] => [(element, 1)]
  | (first, count) :: rest =>
    if element = first then (first, count + 1) :: rest else (element, 1) :: (first, count) :: rest

/-- Each element that differs from the one before it, and how often it stands there. -/
def runs (elements : List α) : List (α × Nat) :=
  elements.foldr extendRuns []

def expand (counted : List (α × Nat)) : List α :=
  counted.flatMap fun (element, count) => List.replicate count element

end HartBoot
