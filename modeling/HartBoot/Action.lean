import HartBoot.Transcript

/-!
Contract: work that changes a state, says something, and may fail on the way.

Owns:
- `Outcome`, what is left of a piece of work: its notes, the state it reached, and its result;
- `Action`, such work as a function of the state, and its sequencing.

A failure keeps the state that was reached and the notes that were made before it, so an action
describes exactly how far the work came. Nothing happens after a failure.

Does not own: any particular state or failure.
-/

namespace HartBoot

/-- What is left when some work has ended. -/
structure Outcome (σ ε α : Type) where
  notes : Transcript
  state : σ
  result : Except ε α

/-- Work on a state `σ` that ends in a value `α` or in a failure `ε`. -/
def Action (σ ε α : Type) : Type :=
  σ → Outcome σ ε α

namespace Action

variable {σ τ ε δ α β : Type}

def run (action : Action σ ε α) (state : σ) : Outcome σ ε α :=
  action state

def done (value : α) : Action σ ε α :=
  fun state => ⟨[], state, .ok value⟩

/-- Do one piece of work, and then, unless it failed, the next. -/
def andThen (first : Action σ ε α) (next : α → Action σ ε β) : Action σ ε β :=
  fun state =>
    let before := first state
    match before.result with
    | .error failure => ⟨before.notes, before.state, .error failure⟩
    | .ok value =>
      let after := next value before.state
      ⟨before.notes ++ after.notes, after.state, after.result⟩

instance : Monad (Action σ ε) where
  pure := done
  bind := andThen

def fail (failure : ε) : Action σ ε α :=
  fun state => ⟨[], state, .error failure⟩

def say (notes : Transcript) : Action σ ε Unit :=
  fun state => ⟨notes, state, .ok ()⟩

def look : Action σ ε σ :=
  fun state => ⟨[], state, .ok state⟩

def change (update : σ → σ) : Action σ ε Unit :=
  fun state => ⟨[], update state, .ok ()⟩

/-- Take the value of a computation that needs no state. -/
def ofExcept (computed : Except ε α) : Action σ ε α :=
  fun state => ⟨[], state, computed⟩

def ofOption (failure : ε) : Option α → Action σ ε α
  | some value => done value
  | none => fail failure

/-- Work on a part of a larger state, with its failures told in the larger state's words. -/
def within
    (part : τ → σ)
    (replace : σ → τ → τ)
    (explain : ε → δ)
    (action : Action σ ε α) :
    Action τ δ α :=
  fun whole =>
    let inner := action (part whole)
    ⟨inner.notes, replace inner.state whole, inner.result.mapError explain⟩

/-- Work on a state of its own; the value that the state reaches is handed on with the result. -/
def apart (start : τ) (explain : ε → δ) (action : Action τ ε α) : Action σ δ (α × τ) :=
  fun state =>
    let inner := action start
    ⟨inner.notes, state,
      (inner.result.mapError explain).map fun value => (value, inner.state)⟩

@[simp] theorem run_pure (value : α) (state : σ) :
    (pure value : Action σ ε α).run state = ⟨[], state, .ok value⟩ :=
  rfl

@[simp] theorem run_fail (failure : ε) (state : σ) :
    (fail failure : Action σ ε α).run state = ⟨[], state, .error failure⟩ :=
  rfl

@[simp] theorem run_say (notes : Transcript) (state : σ) :
    (say notes : Action σ ε Unit).run state = ⟨notes, state, .ok ()⟩ :=
  rfl

@[simp] theorem run_look (state : σ) :
    (look : Action σ ε σ).run state = ⟨[], state, .ok state⟩ :=
  rfl

@[simp] theorem run_change (update : σ → σ) (state : σ) :
    (change update : Action σ ε Unit).run state = ⟨[], update state, .ok ()⟩ :=
  rfl

/-- After a piece of work that succeeded, the next one starts in the state that it reached. -/
theorem run_bind_of_ok
    {first : Action σ ε α}
    {next : α → Action σ ε β}
    {state : σ}
    {value : α}
    (succeeded : (first.run state).result = .ok value) :
    (first >>= next).run state =
      { notes := (first.run state).notes ++ ((next value).run (first.run state).state).notes
        state := ((next value).run (first.run state).state).state
        result := ((next value).run (first.run state).state).result } := by
  change andThen first next state = _
  unfold andThen
  unfold run at succeeded
  simp only [succeeded]
  rfl

/-- After a piece of work that failed, nothing more happens. -/
theorem run_bind_of_error
    {first : Action σ ε α}
    {next : α → Action σ ε β}
    {state : σ}
    {failure : ε}
    (failed : (first.run state).result = .error failure) :
    (first >>= next).run state =
      { notes := (first.run state).notes
        state := (first.run state).state
        result := .error failure } := by
  change andThen first next state = _
  unfold andThen
  unfold run at failed
  simp only [failed]
  rfl

end Action

end HartBoot
