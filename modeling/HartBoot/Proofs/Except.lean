/-!
Contract: when a computation that may fail has a value.

Owns:
- one equivalence for each way to go on from such a computation.

Does not own: any particular failure.
-/

namespace Except

variable {ε δ α β : Type}

theorem bind_eq_ok_iff {first : Except ε α} {next : α → Except ε β} {value : β} :
    (first >>= next) = .ok value ↔ ∃ found, first = .ok found ∧ next found = .ok value := by
  cases first with
  | error failure => simp [bind, Except.bind]
  | ok found => simp [bind, Except.bind]

theorem bind_eq_error_iff {first : Except ε α} {next : α → Except ε β} {failure : ε} :
    (first >>= next) = .error failure ↔
      first = .error failure ∨ ∃ found, first = .ok found ∧ next found = .error failure := by
  cases first with
  | error failure => simp [bind, Except.bind]
  | ok found => simp [bind, Except.bind]

@[simp] theorem mapError_error (explain : ε → δ) (failure : ε) :
    (error failure : Except ε α).mapError explain = .error (explain failure) :=
  rfl

@[simp] theorem mapError_ok (explain : ε → δ) (value : α) :
    (ok value : Except ε α).mapError explain = .ok value :=
  rfl

theorem mapError_eq_ok_iff {computed : Except ε α} {explain : ε → δ} {value : α} :
    computed.mapError explain = .ok value ↔ computed = .ok value := by
  cases computed with
  | error failure => simp
  | ok found => simp

end Except
