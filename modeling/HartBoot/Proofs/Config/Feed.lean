import HartBoot.Proofs.Config.Move

/-!
Contract: what a machine does with any events, accepted or not.

Owns:
- `Machine.feed`, a machine that goes on after an error;
- `feed_cases`, which finds the first event that is refused;
- `Draft.committed`, the part of a draft that only the end of a payload block changes, and
  `advance_fixes_committed`.

Does not own: what the end of a block does (see `HartBoot.Proofs.Config.Draft` for those that
succeed).
-/

namespace HartBoot.Config

variable {σ : Type}

/-! ## Feeding -/

namespace Machine

variable {sink : PayloadSink σ} {matching : Matching}

/-- The machine behind some events, each of which it has accepted or refused. -/
def feed (sink : PayloadSink σ) (matching : Matching) (machine : Machine σ) :
    List Yaml.Event → Machine σ
  | [] => machine
  | event :: rest => feed sink matching ((step sink matching event).run machine).state rest

/-- A machine that has refused an event does nothing any more. -/
theorem feed_of_rejected (draft : Draft σ) (events : List Yaml.Event) :
    feed sink matching ⟨.rejected, draft⟩ events = ⟨.rejected, draft⟩ := by
  induction events with
  | nil => rfl
  | cons event rest inductionHypothesis =>
    have stays : ((step sink matching event).run ⟨.rejected, draft⟩).state = ⟨.rejected, draft⟩ :=
      rfl
    rw [feed, stays]
    exact inductionHypothesis

theorem fails_step {event : Yaml.Event} {before after : Machine σ} {error : Error} :
    (step sink matching event).Fails before error after ↔
      (advance sink matching before.state event).Fails before.draft error after.draft ∧
        after.state = .rejected := by
  unfold Action.Fails Action.run step
  generalize advance sink matching before.state event before.draft = outcome
  rcases outcome with ⟨notes, draft, result⟩
  rcases after with ⟨target, final⟩
  cases result with
  | error failure =>
    constructor
    · rintro ⟨⟨⟩, ⟨⟩⟩
      exact ⟨⟨rfl, rfl⟩, rfl⟩
    · rintro ⟨⟨⟨⟩, ⟨⟩⟩, ⟨⟩⟩
      exact ⟨rfl, rfl⟩
  | ok state => simp

/-- The draft behind an event is the one that its effects have reached, also if they failed. -/
theorem draft_step (event : Yaml.Event) (machine : Machine σ) :
    ((step sink matching event).run machine).state.draft =
      ((advance sink matching machine.state event).run machine.draft).state := by
  unfold Action.run step
  generalize advance sink matching machine.state event machine.draft = outcome
  rcases outcome with ⟨notes, draft, result⟩
  cases result with
  | error failure => rfl
  | ok state => rfl

/-- Behind events that are accepted, a machine goes on from where they have led. -/
theorem feed_append_of_accepted
    {front back : List Yaml.Event}
    {start middle : Machine σ}
    (accepted : (readAll sink matching front).Succeeds start () middle) :
    feed sink matching start (front ++ back) = feed sink matching middle back := by
  induction front generalizing start with
  | nil =>
    obtain ⟨-, rfl⟩ := Action.succeeds_pure.mp accepted
    rfl
  | cons event rest inductionHypothesis =>
    obtain ⟨_, next, first, others⟩ := Action.succeeds_bind.mp accepted
    rw [List.cons_append, feed, first.2]
    exact inductionHypothesis others

/-- Behind an event that is refused, a machine stays as that event has left it. -/
theorem feed_cons_of_refused
    {event : Yaml.Event}
    {rest : List Yaml.Event}
    {before after : Machine σ}
    {error : Error}
    (refused : (step sink matching event).Fails before error after) :
    feed sink matching before (event :: rest) = after := by
  obtain ⟨-, rejected⟩ := fails_step.mp refused
  rcases after with ⟨state, draft⟩
  obtain rfl : state = .rejected := rejected
  rw [feed, refused.2]
  exact feed_of_rejected draft rest

/-- Either all events are accepted, or there is a first one that is refused, and the machine stays
as it is then. -/
theorem feed_cases
    (sink : PayloadSink σ)
    (matching : Matching)
    (start : Machine σ)
    (events : List Yaml.Event) :
    (readAll sink matching events).Succeeds start () (feed sink matching start events) ∨
      ∃ front event back middle error,
        events = front ++ event :: back ∧
          (readAll sink matching front).Succeeds start () middle ∧
          (step sink matching event).Fails middle error (feed sink matching start events) := by
  induction events generalizing start with
  | nil => exact .inl (Action.succeeds_pure.mpr ⟨rfl, rfl⟩)
  | cons event rest inductionHypothesis =>
    cases outcome : ((step sink matching event).run start).result with
    | error error =>
      have refused : (step sink matching event).Fails start error
          ((step sink matching event).run start).state := ⟨outcome, rfl⟩
      rw [feed_cons_of_refused refused]
      exact .inr ⟨[], event, rest, start, error, rfl, Action.succeeds_pure.mpr ⟨rfl, rfl⟩, refused⟩
    | ok done =>
      have accepted : (step sink matching event).Succeeds start done
          ((step sink matching event).run start).state := ⟨outcome, rfl⟩
      rcases inductionHypothesis ((step sink matching event).run start).state with all | some
      · exact .inl (Action.succeeds_bind.mpr ⟨done, _, accepted, all⟩)
      · rcases some with ⟨front, refusing, back, middle, error, rfl, before, refused⟩
        refine .inr ⟨event :: front, refusing, back, middle, error, rfl, ?_, refused⟩
        exact Action.succeeds_bind.mpr ⟨done, _, accepted, before⟩

end Machine

/-! ## Commitment -/

/-- The part of a draft that only the end of a payload block changes. -/
def Draft.committed (draft : Draft σ) : σ × Nat × (Hart → Name × BootFlags) :=
  (draft.store, draft.closed,
    fun hart => ((draft.image.settings hart).name, (draft.image.settings hart).flags))

namespace Draft

open HartBoot.Action (Frame Respects)

/-- The frame of everything that does not commit anything. -/
abbrev uncommitted : Frame (Draft σ) :=
  Frame.fixing committed

theorem committed_withEntry (draft : Draft σ) (hart : Hart) (address : UInt64) :
    (draft.withEntry hart address).committed = draft.committed := by
  have settings : ∀ other,
      ((draft.withEntry hart address).image.settings other).name =
          (draft.image.settings other).name ∧
        ((draft.withEntry hart address).image.settings other).flags =
          (draft.image.settings other).flags := by
    intro other
    rw [settings_withEntry]
    split <;> exact ⟨rfl, rfl⟩
  simp only [committed, settings]
  rfl

theorem committed_assign (draft : Draft σ) (assignment : Assignment) :
    (draft.assign assignment).committed = draft.committed := by
  have settings : ∀ other,
      ((draft.assign assignment).image.settings other).name = (draft.image.settings other).name ∧
        ((draft.assign assignment).image.settings other).flags =
          (draft.image.settings other).flags := by
    intro other
    rw [settings_assign]
    split <;> exact ⟨rfl, rfl⟩
  simp only [committed, settings]
  rfl

variable {hart : Hart}

theorem giveSetName_respects (text : String) :
    (giveSetName text : Action (Draft σ) Error Unit).Respects uncommitted := by
  unfold giveSetName takeSetName fixSetName updateImage
  apply Respects.andThen (Respects.change fun _ => rfl)
  intro _
  apply Respects.andThen
  · apply Respects.andThen Respects.look
    intro seen
    exact Respects.andThen (Respects.change fun _ => rfl) fun _ => Respects.say
  · exact fun _ => Respects.andThen Respects.look fun _ => Respects.say

theorem giveEntryPoint_respects (address : UInt64) :
    (giveEntryPoint hart address : Action (Draft σ) Error Unit).Respects uncommitted := by
  unfold giveEntryPoint updateImage
  apply Respects.andThen Respects.look
  intro seen
  cases (seen.image.settings hart).entry with
  | some other => exact Respects.fail
  | none =>
    have kept : ∀ draft : Draft σ, draft.committed = (draft.withEntry hart address).committed :=
      fun draft => (committed_withEntry draft hart address).symm
    exact Respects.andThen (Respects.change kept) fun _ => Respects.say

theorem setPrivilege_respects (mode : Privilege) :
    (setPrivilege hart mode : Action (Draft σ) Error Unit).Respects uncommitted := by
  unfold setPrivilege updateImage
  apply Respects.andThen Respects.say
  intro _
  exact Respects.change fun draft => (committed_assign draft ⟨hart, mode, false⟩).symm

theorem shareMode_respects (mode : Privilege) (harts : List Hart) :
    (shareMode mode harts : Action (Draft σ) Error Unit).Respects uncommitted := by
  induction harts with
  | nil => exact Respects.pure
  | cons hart rest inductionHypothesis =>
    unfold shareMode
    apply Respects.andThen Respects.look
    intro seen
    by_cases free : (seen.image.settings hart).privilege = .unset
    · rw [if_pos free]
      exact Respects.andThen (setPrivilege_respects mode) fun _ => inductionHypothesis
    · rw [if_neg free]
      exact Respects.fail

theorem givePrivilege_respects (block : Block) (mode : Privilege) :
    (givePrivilege block mode : Action (Draft σ) Error Block).Respects uncommitted := by
  unfold givePrivilege
  cases block.owner with
  | none => exact Respects.fail
  | some owner =>
    apply Respects.andThen Respects.say
    intro _
    apply Respects.andThen (setPrivilege_respects mode)
    intro _
    exact Respects.andThen (shareMode_respects mode _) fun _ => Respects.pure

end Draft

namespace Machine

open HartBoot.Action (Frame Respects)

variable {sink : PayloadSink σ} {matching : Matching} {frame : Frame (Draft σ)}

/-- Of all fields, only a privilege mode does something before the block is closed. -/
theorem readField_respects_frame
    (place : Place)
    (block : Block)
    {field : Field}
    {value : String}
    (modes : ∀ mode, field.attribute? matching value = some (.privMode mode) →
      (Draft.givePrivilege block mode).Respects frame) :
    (readField matching place block field value).Respects frame := by
  have said : ∀ (notes : Transcript) (filled : Block),
      (do Action.say notes; pure filled : Action (Draft σ) Error Block).Respects frame :=
    fun _ _ => Respects.andThen Respects.say fun _ => Respects.pure
  cases field with
  | execAddr => exact Respects.andThen Respects.ofOption fun _ => said _ _
  | ownerHart => exact Respects.andThen Respects.ofOption fun _ => said _ _
  | secondaryHart =>
    apply Respects.andThen Respects.ofOption
    intro hart
    unfold addSecondary
    split
    · exact said _ _
    · exact Respects.fail
  | payloadName => exact said _ _
  | privMode =>
    apply Respects.bind Respects.ofOption
    rintro mode ⟨before, after, found⟩
    have resolved := (succeeds_keywordValue.mp found).1
    exact modes mode (Field.attribute?_eq_privMode_iff.mpr ⟨rfl, resolved⟩)
  | skipOpenSbi => exact Respects.andThen Respects.ofOption fun _ => Respects.pure
  | skipAutoboot => exact Respects.andThen Respects.ofOption fun _ => Respects.pure
  | allowReboot => exact Respects.andThen Respects.ofOption fun _ => Respects.pure
  | ancillaryData => exact said _ _

/-- An event keeps within a frame when the effect that it can have in its state does. -/
theorem advance_respects_frame
    {state : State}
    {event : Yaml.Event}
    (names : ∀ text, state = .setName → (Draft.giveSetName text).Respects frame)
    (enters : ∀ hart address, state = .entryPoint hart →
      (Draft.giveEntryPoint hart address).Respects frame)
    (fills : ∀ place block field value, state = .field block field → event.kind = .scalar value →
      (readField matching place block field value).Respects frame)
    (closes : ∀ block, state = .block block → event.kind = .mappingEnd →
      (Draft.close sink block).Respects frame) :
    (advance sink matching state event).Respects frame := by
  rcases event with ⟨kind, line, column⟩
  -- A pair of a state and a kind that is not named below changes nothing.
  cases state <;> cases kind
  case mapping.scalar key => exact Respects.ofOption
  case setName.scalar text => exact Respects.andThen (names text rfl) fun _ => Respects.pure
  case entryPoints.scalar key => exact Respects.andThen Respects.ofOption fun _ => Respects.pure
  case entryPoint.scalar hart value =>
    apply Respects.andThen Respects.ofOption
    intro address
    exact Respects.andThen (enters hart address rfl) fun _ => Respects.pure
  case payloads.scalar path => exact Respects.andThen Respects.say fun _ => Respects.pure
  case block.mappingEnd block =>
    exact Respects.andThen (closes block rfl rfl) fun _ => Respects.pure
  case block.scalar block key => exact Respects.andThen Respects.ofOption fun _ => Respects.pure
  case field.scalar block field value =>
    exact Respects.andThen (fills _ block field value rfl rfl) fun _ => Respects.pure
  all_goals first | exact Respects.pure | exact Respects.fail

/-- An event that does not end a payload block commits nothing, whether it is accepted or not. -/
theorem advance_fixes_committed
    {state : State}
    {event : Yaml.Event}
    (running : ∀ block, state = .block block → event.kind ≠ .mappingEnd) :
    (advance sink matching state event).Respects Draft.uncommitted := by
  apply advance_respects_frame
  · exact fun text _ => Draft.giveSetName_respects text
  · exact fun _ address _ => Draft.giveEntryPoint_respects address
  · intro place block field value _ _
    exact readField_respects_frame place block fun mode _ => Draft.givePrivilege_respects block mode
  · exact fun block inside ends => absurd ends (running block inside)

end Machine

end HartBoot.Config
