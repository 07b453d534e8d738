import HartBoot.Action
import HartBoot.Proofs.Except

/-!
Contract: what can be said of work without looking at how it is done.

Owns:
- `Action.bind_assoc`, the law of sequencing;
- `Action.Succeeds`, the runs that end in a value, with one equivalence for each way to build an
  action, so that success unfolds into what has to hold;
- `Action.Fails`, the runs that end in a failure, and `Action.Raises`, a property of every failure,
  with the rules that carry it from the parts of some work to the whole;
- `Action.Respects`, a relation between the first and the last state of every run, also of those
  that fail, and the rules that carry it from the parts of some work to the whole.

Notes never decide anything, so none of them mentions notes.

Does not own: any particular work.
-/

namespace HartBoot.Action

variable {σ τ ε δ α β γ : Type}

/-- What follows some work in two parts follows the second part. -/
theorem bind_assoc
    (first : Action σ ε α)
    (second : α → Action σ ε β)
    (third : β → Action σ ε γ) :
    first >>= second >>= third = first >>= fun value => second value >>= third := by
  funext state
  show (first >>= second >>= third).run state =
    (first >>= fun value => second value >>= third).run state
  cases begun : (first.run state).result with
  | error failure =>
    have stopped : ((first >>= second).run state).result = .error failure := by
      rw [run_bind_of_error begun]
    rw [run_bind_of_error stopped, run_bind_of_error begun, run_bind_of_error begun]
  | ok value =>
    rw [run_bind_of_ok begun]
    have through : (first >>= second).run state = _ := run_bind_of_ok begun
    cases continued : ((second value).run (first.run state).state).result with
    | error failure =>
      have stopped : ((first >>= second).run state).result = .error failure := by
        rw [through, continued]
      rw [run_bind_of_error stopped, run_bind_of_error continued, through]
    | ok result =>
      have reached : ((first >>= second).run state).result = .ok result := by
        rw [through, continued]
      rw [run_bind_of_ok reached, run_bind_of_ok continued, through]
      simp only [List.append_assoc]

/-! ## Runs that succeed -/

/-- The work leads from one state to a value and another state. -/
def Succeeds (action : Action σ ε α) (before : σ) (value : α) (after : σ) : Prop :=
  (action.run before).result = .ok value ∧ (action.run before).state = after

section Succeeds

variable {before after : σ} {value : α}

theorem succeeds_iff_of_run {action : Action σ ε α} {outcome : Outcome σ ε α}
    (known : action.run before = outcome) :
    action.Succeeds before value after ↔ outcome.result = .ok value ∧ outcome.state = after := by
  rw [Succeeds, known]

@[simp] theorem succeeds_pure {result : α} :
    (pure result : Action σ ε α).Succeeds before value after ↔ result = value ∧ before = after := by
  rw [succeeds_iff_of_run (run_pure result before), Except.ok.injEq]

@[simp] theorem succeeds_done {result : α} :
    (done result : Action σ ε α).Succeeds before value after ↔ result = value ∧ before = after :=
  succeeds_pure

@[simp] theorem succeeds_fail {failure : ε} :
    ¬ (fail failure : Action σ ε α).Succeeds before value after := by
  intro holds
  rcases holds with ⟨impossible, -⟩
  cases impossible

@[simp] theorem succeeds_say {notes : Transcript} {result : Unit} :
    (say notes : Action σ ε Unit).Succeeds before result after ↔ before = after := by
  rw [succeeds_iff_of_run (run_say notes before)]
  exact and_iff_right rfl

@[simp] theorem succeeds_look {seen : σ} :
    (look : Action σ ε σ).Succeeds before seen after ↔ before = seen ∧ before = after := by
  rw [succeeds_iff_of_run (run_look before), Except.ok.injEq]

@[simp] theorem succeeds_change {update : σ → σ} {result : Unit} :
    (change update : Action σ ε Unit).Succeeds before result after ↔ update before = after := by
  rw [succeeds_iff_of_run (run_change update before)]
  exact and_iff_right rfl

@[simp] theorem succeeds_ofExcept {computed : Except ε α} :
    (ofExcept computed : Action σ ε α).Succeeds before value after ↔
      computed = .ok value ∧ before = after :=
  Iff.rfl

@[simp] theorem succeeds_ofOption {failure : ε} {found : Option α} :
    (ofOption failure found : Action σ ε α).Succeeds before value after ↔
      found = some value ∧ before = after := by
  cases found with
  | none => simp [ofOption]
  | some result => rw [ofOption, succeeds_done, Option.some.injEq]

@[simp] theorem succeeds_bind {first : Action σ ε α} {next : α → Action σ ε β} {value : β} :
    (first >>= next).Succeeds before value after ↔
      ∃ found middle,
        first.Succeeds before found middle ∧ (next found).Succeeds middle value after := by
  cases outcome : (first.run before).result with
  | error failure =>
    rw [succeeds_iff_of_run (run_bind_of_error outcome)]
    constructor
    · intro holds
      rcases holds with ⟨impossible, -⟩
      cases impossible
    · intro holds
      rcases holds with ⟨found, middle, ⟨succeeded, -⟩, -⟩
      rw [outcome] at succeeded
      cases succeeded
  | ok found =>
    rw [succeeds_iff_of_run (run_bind_of_ok outcome)]
    constructor
    · exact fun rest => ⟨found, _, ⟨outcome, rfl⟩, rest⟩
    · intro holds
      rcases holds with ⟨other, middle, ⟨succeeded, rfl⟩, rest⟩
      rw [outcome] at succeeded
      obtain rfl := Except.ok.inj succeeded
      exact rest

@[simp] theorem succeeds_within
    {part : τ → σ}
    {replace : σ → τ → τ}
    {explain : ε → δ}
    {action : Action σ ε α}
    {before after : τ} :
    (within part replace explain action).Succeeds before value after ↔
      ∃ inner, action.Succeeds (part before) value inner ∧ replace inner before = after := by
  have unfolded :
      (within part replace explain action).Succeeds before value after ↔
        ((action.run (part before)).result.mapError explain) = .ok value ∧
          replace (action.run (part before)).state before = after :=
    Iff.rfl
  rw [unfolded, Except.mapError_eq_ok_iff]
  constructor
  · intro holds
    rcases holds with ⟨succeeded, replaced⟩
    exact ⟨_, ⟨succeeded, rfl⟩, replaced⟩
  · intro holds
    rcases holds with ⟨inner, ⟨succeeded, rfl⟩, replaced⟩
    exact ⟨succeeded, replaced⟩

@[simp] theorem succeeds_apart
    {start final : τ}
    {explain : ε → δ}
    {action : Action τ ε α} :
    (apart start explain action : Action σ δ (α × τ)).Succeeds before (value, final) after ↔
      action.Succeeds start value final ∧ before = after := by
  have unfolded :
      (apart start explain action : Action σ δ (α × τ)).Succeeds before (value, final) after ↔
        ((action.run start).result.mapError explain).map
            (fun result => (result, (action.run start).state)) = .ok (value, final) ∧
          before = after :=
    Iff.rfl
  rw [unfolded, Succeeds]
  cases (action.run start).result with
  | error failure => simp [Except.map]
  | ok result => simp [Except.map]

end Succeeds

/-! ## Runs that fail -/

/-- The work leads from one state to a failure, and another state has been reached by then. -/
def Fails (action : Action σ ε α) (before : σ) (failure : ε) (after : σ) : Prop :=
  (action.run before).result = .error failure ∧ (action.run before).state = after

section Fails

variable {before after : σ} {failure : ε}

theorem not_fails_of_succeeds
    {action : Action σ ε α}
    {reached : σ}
    {value : α}
    (succeeded : action.Succeeds before value reached) :
    ¬ action.Fails before failure after := by
  intro failed
  rw [Fails, succeeded.1] at failed
  cases failed.1

/-- A run ends in a failure or in a value. -/
theorem exists_fails_iff {action : Action σ ε α} :
    (∃ failure after, action.Fails before failure after) ↔
      ¬ ∃ value after, action.Succeeds before value after := by
  constructor
  · intro failed succeeded
    rcases failed with ⟨failure, after, failed⟩
    rcases succeeded with ⟨value, reached, succeeded⟩
    exact not_fails_of_succeeds succeeded failed
  · intro refused
    cases outcome : (action.run before).result with
    | error failure => exact ⟨failure, _, outcome, rfl⟩
    | ok value => exact absurd ⟨value, _, outcome, rfl⟩ refused

@[simp] theorem fails_pure {result : α} :
    ¬ (pure result : Action σ ε α).Fails before failure after := by
  intro holds
  rcases holds with ⟨impossible, -⟩
  cases impossible

@[simp] theorem fails_done {result : α} :
    ¬ (done result : Action σ ε α).Fails before failure after :=
  fails_pure

@[simp] theorem fails_fail {told : ε} :
    (fail told : Action σ ε α).Fails before failure after ↔ told = failure ∧ before = after := by
  rw [Fails, run_fail, Except.error.injEq]

@[simp] theorem fails_say {notes : Transcript} :
    ¬ (say notes : Action σ ε Unit).Fails before failure after := by
  intro holds
  rcases holds with ⟨impossible, -⟩
  cases impossible

@[simp] theorem fails_look : ¬ (look : Action σ ε σ).Fails before failure after := by
  intro holds
  rcases holds with ⟨impossible, -⟩
  cases impossible

@[simp] theorem fails_change {update : σ → σ} :
    ¬ (change update : Action σ ε Unit).Fails before failure after := by
  intro holds
  rcases holds with ⟨impossible, -⟩
  cases impossible

@[simp] theorem fails_ofExcept {computed : Except ε α} :
    (ofExcept computed : Action σ ε α).Fails before failure after ↔
      computed = .error failure ∧ before = after :=
  Iff.rfl

@[simp] theorem fails_ofOption {told : ε} {found : Option α} :
    (ofOption told found : Action σ ε α).Fails before failure after ↔
      found = none ∧ told = failure ∧ before = after := by
  cases found with
  | none => simp [ofOption]
  | some result => simp [ofOption]

@[simp] theorem fails_bind {first : Action σ ε α} {next : α → Action σ ε β} :
    (first >>= next).Fails before failure after ↔
      first.Fails before failure after ∨
        ∃ found middle, first.Succeeds before found middle ∧
          (next found).Fails middle failure after := by
  cases outcome : (first.run before).result with
  | error other =>
    have refused : ¬ ∃ found middle, first.Succeeds before found middle ∧
        (next found).Fails middle failure after := by
      intro holds
      rcases holds with ⟨found, middle, ⟨succeeded, -⟩, -⟩
      rw [outcome] at succeeded
      cases succeeded
    rw [or_iff_left refused, Fails, Fails, run_bind_of_error outcome, outcome]
    simp
  | ok value =>
    have going : ¬ first.Fails before failure after := by
      intro holds
      rcases holds with ⟨failed, -⟩
      rw [outcome] at failed
      cases failed
    rw [or_iff_right going, Fails, run_bind_of_ok outcome]
    constructor
    · exact fun rest => ⟨value, _, ⟨outcome, rfl⟩, rest⟩
    · intro holds
      rcases holds with ⟨other, middle, ⟨succeeded, rfl⟩, rest⟩
      rw [outcome] at succeeded
      obtain rfl := Except.ok.inj succeeded
      exact rest

/-- Work whose value is only put into another form fails as it does without that. -/
theorem fails_of_fails_bind_pure
    {first : Action σ ε α}
    {value : α → β}
    (failed : (first >>= fun found => pure (value found)).Fails before failure after) :
    first.Fails before failure after := by
  rcases fails_bind.mp failed with begun | ⟨_, _, _, impossible⟩
  · exact begun
  · exact absurd impossible fails_pure

/-- Work on a value that may be missing fails without an effect, or as it does on the value. -/
theorem kept_or_fails_of_fails_ofOption_bind
    {told : ε}
    {found : Option α}
    {next : α → Action σ ε β}
    (failed : (ofOption told found >>= next).Fails before failure after) :
    before = after ∨ ∃ value, (next value).Fails before failure after := by
  rcases fails_bind.mp failed with missing | ⟨value, middle, known, behind⟩
  · exact .inl (fails_ofOption.mp missing).2.2
  · obtain ⟨-, rfl⟩ := succeeds_ofOption.mp known
    exact .inr ⟨value, behind⟩

@[simp] theorem fails_within
    {part : τ → σ}
    {replace : σ → τ → τ}
    {explain : ε → δ}
    {action : Action σ ε α}
    {before after : τ}
    {failure : δ} :
    (within part replace explain action).Fails before failure after ↔
      ∃ cause inner, action.Fails (part before) cause inner ∧ explain cause = failure ∧
        replace inner before = after := by
  have unfolded :
      (within part replace explain action).Fails before failure after ↔
        ((action.run (part before)).result.mapError explain) = .error failure ∧
          replace (action.run (part before)).state before = after :=
    Iff.rfl
  rw [unfolded]
  unfold Fails
  cases (action.run (part before)).result with
  | error cause =>
    simp only [Except.mapError_error, Except.error.injEq]
    constructor
    · intro failed
      rcases failed with ⟨told, replaced⟩
      exact ⟨cause, _, ⟨rfl, rfl⟩, told, replaced⟩
    · intro failed
      rcases failed with ⟨_, _, ⟨rfl, rfl⟩, told, replaced⟩
      exact ⟨told, replaced⟩
  | ok result => simp

@[simp] theorem fails_apart
    {start : τ}
    {explain : ε → δ}
    {action : Action τ ε α}
    {failure : δ} :
    (apart start explain action : Action σ δ (α × τ)).Fails before failure after ↔
      (∃ cause final, action.Fails start cause final ∧ explain cause = failure) ∧
        before = after := by
  have unfolded :
      (apart start explain action : Action σ δ (α × τ)).Fails before failure after ↔
        ((action.run start).result.mapError explain).map
            (fun result => (result, (action.run start).state)) = .error failure ∧
          before = after :=
    Iff.rfl
  rw [unfolded]
  unfold Fails
  cases (action.run start).result with
  | error cause => simp [Except.map]
  | ok result => simp [Except.map]

end Fails

/-- Every failure of the work has a property. -/
def Raises (property : ε → Prop) (action : Action σ ε α) : Prop :=
  ∀ before failure after, action.Fails before failure after → property failure

namespace Raises

variable {property : ε → Prop}

theorem pure {value : α} : (Pure.pure value : Action σ ε α).Raises property :=
  fun _ _ _ failed => absurd failed fails_pure

theorem fail {failure : ε} (raised : property failure) :
    (Action.fail failure : Action σ ε α).Raises property := by
  intro before other after failed
  obtain ⟨rfl, -⟩ := fails_fail.mp failed
  exact raised

theorem say {notes : Transcript} : (Action.say notes : Action σ ε Unit).Raises property :=
  fun _ _ _ failed => absurd failed fails_say

theorem look : (Action.look : Action σ ε σ).Raises property :=
  fun _ _ _ failed => absurd failed fails_look

theorem change {update : σ → σ} : (Action.change update : Action σ ε Unit).Raises property :=
  fun _ _ _ failed => absurd failed fails_change

theorem ofOption {failure : ε} {found : Option α} (raised : property failure) :
    (Action.ofOption failure found : Action σ ε α).Raises property := by
  intro before other after failed
  obtain ⟨-, rfl, -⟩ := fails_ofOption.mp failed
  exact raised

/-- Work that always succeeds raises nothing. -/
theorem ofSucceeds
    {action : Action σ ε α}
    (succeeds : ∀ before, ∃ value after, action.Succeeds before value after) :
    action.Raises property := by
  intro before failure after failed
  rcases succeeds before with ⟨value, reached, succeeded⟩
  exact absurd failed (not_fails_of_succeeds succeeded)

theorem andThen
    {first : Action σ ε α}
    {next : α → Action σ ε β}
    (begins : first.Raises property)
    (goes : ∀ value, (next value).Raises property) :
    (first >>= next).Raises property := by
  intro before failure after failed
  rcases fails_bind.mp failed with begun | ⟨value, middle, -, behind⟩
  · exact begins before failure after begun
  · exact goes value middle failure after behind

theorem within
    {part : τ → σ}
    {replace : σ → τ → τ}
    {explain : ε → δ}
    {action : Action σ ε α}
    {property : δ → Prop}
    (raised : ∀ cause, property (explain cause)) :
    (Action.within part replace explain action).Raises property := by
  intro before failure after failed
  obtain ⟨cause, -, -, rfl, -⟩ := fails_within.mp failed
  exact raised cause

end Raises

/-! ## Runs that keep within a frame -/

/-- What some work may do to a state: a relation between the state before and the state after,
under which nothing and one thing after the other are allowed. -/
structure Frame (σ : Type) where
  allows : σ → σ → Prop
  refl : ∀ state, allows state state
  trans : ∀ {first second third}, allows first second → allows second third → allows first third

/-- The frame of everything that keeps a property of the state. -/
def Frame.keeping (property : σ → Prop) : Frame σ where
  allows before after := property before → property after
  refl _ := id
  trans first second := second ∘ first

/-- The frame of everything that leaves a part of the state as it is. -/
def Frame.fixing (part : σ → τ) : Frame σ where
  allows before after := part before = part after
  refl _ := rfl
  trans first second := first.trans second

/-- Every run of the work, also one that fails, does only what the frame allows. -/
def Respects (frame : Frame σ) (action : Action σ ε α) : Prop :=
  ∀ state, frame.allows state (action.run state).state

namespace Respects

variable {frame : Frame σ}

theorem done {value : α} : (Action.done value : Action σ ε α).Respects frame :=
  frame.refl

theorem pure {value : α} : (Pure.pure value : Action σ ε α).Respects frame :=
  frame.refl

theorem fail {failure : ε} : (Action.fail failure : Action σ ε α).Respects frame :=
  frame.refl

theorem say {notes : Transcript} : (Action.say notes : Action σ ε Unit).Respects frame :=
  frame.refl

theorem look : (Action.look : Action σ ε σ).Respects frame :=
  frame.refl

theorem change {update : σ → σ} (allowed : ∀ state, frame.allows state (update state)) :
    (Action.change update : Action σ ε Unit).Respects frame :=
  allowed

theorem ofOption {failure : ε} {found : Option α} :
    (Action.ofOption failure found : Action σ ε α).Respects frame := by
  cases found with
  | none => exact fail
  | some value => exact done

theorem ofExcept {computed : Except ε α} :
    (Action.ofExcept computed : Action σ ε α).Respects frame :=
  frame.refl

/-- The next work has to keep within the frame only for values that the first work can have. -/
theorem bind
    {first : Action σ ε α}
    {next : α → Action σ ε β}
    (kept : first.Respects frame)
    (keeps : ∀ value, (∃ before after, first.Succeeds before value after) →
      (next value).Respects frame) :
    (first >>= next).Respects frame := by
  intro state
  cases outcome : (first.run state).result with
  | error failure =>
    rw [run_bind_of_error outcome]
    exact kept state
  | ok value =>
    rw [run_bind_of_ok outcome]
    exact frame.trans (kept state) (keeps value ⟨state, _, outcome, rfl⟩ _)

/-- What is done first does not matter to the next work. -/
theorem andThen
    {first : Action σ ε α}
    {next : α → Action σ ε β}
    (kept : first.Respects frame)
    (keeps : ∀ value, (next value).Respects frame) :
    (first >>= next).Respects frame :=
  bind kept fun value _ => keeps value

theorem within
    {outer : Frame τ}
    {part : τ → σ}
    {replace : σ → τ → τ}
    {explain : ε → δ}
    {action : Action σ ε α}
    (kept : action.Respects frame)
    (lifts : ∀ whole inner, frame.allows (part whole) inner →
      outer.allows whole (replace inner whole)) :
    (Action.within part replace explain action).Respects outer :=
  fun whole => lifts whole _ (kept (part whole))

theorem widen
    {wider : Frame σ}
    {action : Action σ ε α}
    (kept : action.Respects frame)
    (included : ∀ before after, frame.allows before after → wider.allows before after) :
    action.Respects wider :=
  fun state => included state _ (kept state)

/-- What a frame allows for every run, it allows for those that succeed. -/
theorem allows_of_succeeds
    {action : Action σ ε α}
    (kept : action.Respects frame)
    {before after : σ}
    {value : α}
    (succeeded : action.Succeeds before value after) :
    frame.allows before after := by
  rcases succeeded with ⟨-, rfl⟩
  exact kept before

end Respects

end HartBoot.Action
