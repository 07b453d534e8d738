import HartBoot.Proofs.Config.Feed
import HartBoot.Proofs.Yaml.Reader

/-!
Contract: every text ends in a verdict.

Owns:
- `Error.OfEvent`, the errors that an event can be refused with;
- `Machine.fails_readAll`, which finds the first event that is refused;
- `Pulls`, the loop that takes the events of a text one at a time and hands each to the machine;
- the law of verdicts: how reading a text ends, and that nothing behind its end is looked at.

Does not own: which texts are accepted (see `HartBoot.Proofs.Config.Language`).
-/

namespace HartBoot.Config

variable {σ : Type}

/-! ## Errors of events -/

/-- The errors that an event can be refused with. The others are for the text and for its end. -/
def Error.OfEvent : Error → Prop
  | .unexpectedEnd _ => False
  | .notYaml _ => False
  | _ => True

namespace Draft

open HartBoot.Action (Raises)

theorem giveEntryPoint_raises (hart : Hart) (address : UInt64) :
    (giveEntryPoint hart address : Action (Draft σ) Error Unit).Raises Error.OfEvent := by
  unfold giveEntryPoint updateImage
  refine Raises.andThen Raises.look ?_
  intro seen
  cases (seen.image.settings hart).entry with
  | some other => exact Raises.fail trivial
  | none => exact Raises.andThen Raises.change fun _ => Raises.say

theorem setPrivilege_raises (hart : Hart) (mode : Privilege) :
    (setPrivilege hart mode : Action (Draft σ) Error Unit).Raises Error.OfEvent :=
  Raises.ofSucceeds fun _ => ⟨(), _, succeeds_setPrivilege.mpr rfl⟩

theorem shareMode_raises (mode : Privilege) (harts : List Hart) :
    (shareMode mode harts : Action (Draft σ) Error Unit).Raises Error.OfEvent := by
  induction harts with
  | nil => exact Raises.pure
  | cons hart rest inductionHypothesis =>
    unfold shareMode
    refine Raises.andThen Raises.look ?_
    intro seen
    by_cases free : (seen.image.settings hart).privilege = .unset
    · rw [if_pos free]
      exact Raises.andThen (setPrivilege_raises hart mode) fun _ => inductionHypothesis
    · rw [if_neg free]
      exact Raises.fail trivial

theorem givePrivilege_raises (block : Block) (mode : Privilege) :
    (givePrivilege block mode : Action (Draft σ) Error Block).Raises Error.OfEvent := by
  unfold givePrivilege
  cases block.owner with
  | none => exact Raises.fail trivial
  | some owner =>
    refine Raises.andThen Raises.say ?_
    intro _
    refine Raises.andThen (setPrivilege_raises owner mode) ?_
    intro _
    exact Raises.andThen (shareMode_raises mode _) fun _ => Raises.pure

theorem close_raises (sink : PayloadSink σ) (block : Block) :
    (close sink block).Raises Error.OfEvent := by
  unfold close updateImage
  refine Raises.andThen (Raises.ofSucceeds fun _ => ⟨(), _, succeeds_nameSetAfter.mpr rfl⟩) ?_
  intro _
  cases block.owner with
  | none => exact Raises.fail trivial
  | some owner =>
    refine Raises.andThen (Raises.ofSucceeds fun _ => ⟨(), _, succeeds_takeHartName.mpr rfl⟩) ?_
    intro _
    refine Raises.andThen (Raises.within fun _ => trivial) ?_
    intro _
    refine Raises.andThen Raises.change ?_
    intro _
    refine Raises.andThen Raises.change ?_
    intro _
    exact Raises.andThen Raises.look fun _ => Raises.say

end Draft

namespace Machine

open HartBoot.Action (Raises)

variable {sink : PayloadSink σ} {matching : Matching}

theorem readField_raises (place : Place) (block : Block) (field : Field) (value : String) :
    (readField matching place block field value : Action (Draft σ) Error Block).Raises
      Error.OfEvent := by
  have said : ∀ (notes : Transcript) (filled : Block),
      (do Action.say notes; pure filled : Action (Draft σ) Error Block).Raises Error.OfEvent :=
    fun _ _ => Raises.andThen Raises.say fun _ => Raises.pure
  cases field with
  | execAddr => exact Raises.andThen (Raises.ofOption trivial) fun _ => said _ _
  | ownerHart => exact Raises.andThen (Raises.ofOption trivial) fun _ => said _ _
  | secondaryHart =>
    refine Raises.andThen (Raises.ofOption trivial) ?_
    intro hart
    unfold addSecondary
    split
    · exact said _ _
    · exact Raises.fail trivial
  | payloadName => exact said _ _
  | privMode =>
    exact Raises.andThen (Raises.ofOption trivial) fun mode => Draft.givePrivilege_raises block mode
  | skipOpenSbi => exact Raises.andThen (Raises.ofOption trivial) fun _ => Raises.pure
  | skipAutoboot => exact Raises.andThen (Raises.ofOption trivial) fun _ => Raises.pure
  | allowReboot => exact Raises.andThen (Raises.ofOption trivial) fun _ => Raises.pure
  | ancillaryData => exact said _ _

/-- No event is refused for what is wrong with the text or with its end. -/
theorem advance_raises (state : State) (event : Yaml.Event) :
    (advance sink matching state event).Raises Error.OfEvent := by
  rcases event with ⟨kind, line, column⟩
  have token : ∀ {α : Type} {place : Place} {meaning : Keyword → Option α} {scalar : String},
      (keywordValue matching place meaning scalar : Action (Draft σ) Error α).Raises
        Error.OfEvent :=
    Raises.ofOption trivial
  -- A pair of a state and a kind that is not named below changes nothing.
  cases state <;> cases kind
  case mapping.scalar key => exact token
  case setName.scalar text =>
    have given : (Draft.giveSetName text : Action (Draft σ) Error Unit).Raises Error.OfEvent :=
      Raises.ofSucceeds fun _ => ⟨(), _, Draft.succeeds_giveSetName.mpr rfl⟩
    exact Raises.andThen given fun _ => Raises.pure
  case entryPoints.scalar key => exact Raises.andThen token fun _ => Raises.pure
  case entryPoint.scalar hart value =>
    refine Raises.andThen (Raises.ofOption trivial) ?_
    intro address
    exact Raises.andThen (Draft.giveEntryPoint_raises hart address) fun _ => Raises.pure
  case payloads.scalar path => exact Raises.andThen Raises.say fun _ => Raises.pure
  case block.mappingEnd block =>
    exact Raises.andThen (Draft.close_raises sink block) fun _ => Raises.pure
  case block.scalar block key => exact Raises.andThen token fun _ => Raises.pure
  case field.scalar block field value =>
    exact Raises.andThen (readField_raises _ block field value) fun _ => Raises.pure
  all_goals first | exact Raises.pure | exact Raises.fail trivial

theorem step_raises (event : Yaml.Event) : (step sink matching event).Raises Error.OfEvent :=
  fun _ error _ failed => advance_raises _ event _ error _ (fails_step.mp failed).1

/-! ## The first refusal -/

theorem readAll_append (front back : List Yaml.Event) :
    readAll sink matching (front ++ back) =
      (readAll sink matching front >>= fun _ => readAll sink matching back) := by
  induction front with
  | nil => rfl
  | cons event rest inductionHypothesis =>
    have one : ∀ events : List Yaml.Event, readAll sink matching (event :: events) =
        (step sink matching event >>= fun _ => readAll sink matching events) :=
      fun _ => rfl
    rw [List.cons_append, one, one, inductionHypothesis, Action.bind_assoc]

/-- Reading events fails at the first one that is refused, and as that one does. -/
theorem fails_readAll
    {events : List Yaml.Event}
    {before after : Machine σ}
    {error : Error} :
    (readAll sink matching events).Fails before error after ↔
      ∃ front event back middle, events = front ++ event :: back ∧
        (readAll sink matching front).Succeeds before () middle ∧
        (step sink matching event).Fails middle error after := by
  constructor
  · intro failed
    induction events generalizing before with
    | nil => exact absurd failed Action.fails_pure
    | cons event rest inductionHypothesis =>
      rcases Action.fails_bind.mp failed with refused | ⟨done, middle, accepted, later⟩
      · exact ⟨[], event, rest, before, rfl, Action.succeeds_pure.mpr ⟨rfl, rfl⟩, refused⟩
      · rcases inductionHypothesis later with ⟨front, refusing, back, last, rfl, read, refused⟩
        refine ⟨event :: front, refusing, back, last, rfl, ?_, refused⟩
        exact Action.succeeds_bind.mpr ⟨done, middle, accepted, read⟩
  · rintro ⟨front, event, back, middle, rfl, accepted, refused⟩
    rw [readAll_append]
    exact Action.fails_bind.mpr (.inr ⟨(), middle, accepted, Action.fails_bind.mpr (.inl refused)⟩)

end Machine

section Reading

variable {sink : PayloadSink σ} {matching : Matching}

theorem readReading_append (front back : List Yaml.Event) (fault : Option Yaml.Fault) :
    readReading sink matching ⟨front ++ back, fault⟩ =
      (Machine.readAll sink matching front >>= fun _ =>
        readReading sink matching ⟨back, fault⟩) := by
  unfold readReading
  rw [Machine.readAll_append, Action.bind_assoc]

theorem readReading_cons
    (event : Yaml.Event)
    (rest : List Yaml.Event)
    (fault : Option Yaml.Fault) :
    readReading sink matching ⟨event :: rest, fault⟩ =
      (Machine.step sink matching event >>= fun _ => readReading sink matching ⟨rest, fault⟩) :=
  Action.bind_assoc (Machine.step sink matching event)
    (fun _ => Machine.readAll sink matching rest) _

/-- After a refusal it does not matter what stands behind the refused event. -/
theorem run_readReading_of_refused
    {front : List Yaml.Event}
    {event : Yaml.Event}
    {start middle after : Machine σ}
    {error : Error}
    (accepted : (Machine.readAll sink matching front).Succeeds start () middle)
    (refused : (Machine.step sink matching event).Fails middle error after)
    (back : List Yaml.Event)
    (fault : Option Yaml.Fault) :
    (readReading sink matching ⟨front ++ event :: back, fault⟩).run start =
      (readReading sink matching ⟨front ++ [event], none⟩).run start := by
  have stopped : ((Machine.readAll sink matching (front ++ [event])).run start).result =
      .error error :=
    (Machine.fails_readAll.mpr ⟨front, event, [], middle, rfl, accepted, refused⟩).1
  have ignored : ∀ (events : List Yaml.Event) (fault : Option Yaml.Fault),
      (readReading sink matching ⟨front ++ [event] ++ events, fault⟩).run start =
        { notes := ((Machine.readAll sink matching (front ++ [event])).run start).notes
          state := ((Machine.readAll sink matching (front ++ [event])).run start).state
          result := .error error } := by
    intro events fault
    rw [readReading_append, Action.run_bind_of_error stopped]
  have alone := ignored [] none
  have followed := ignored back fault
  rw [List.append_nil] at alone
  rw [List.append_assoc] at followed
  exact followed.trans alone.symm

end Reading

/-! ## One event at a time -/

/-- Every event that a reader gives is handed to the machine. A fault and a refusal end the loop;
when the reader gives nothing more, the machine has to be finished. -/
inductive Pulls (sink : PayloadSink σ) (matching : Matching) :
    Yaml.Reader → Machine σ → Outcome (Machine σ) Error Image → Prop where
  | ended {reader rest : Yaml.Reader} {machine : Machine σ} :
    reader.next = (none, rest) →
    Pulls sink matching reader machine ⟨[], machine, machine.finish⟩
  | faulty {reader rest : Yaml.Reader} {machine : Machine σ} {fault : Yaml.Fault} :
    reader.next = (some (.error fault), rest) →
    Pulls sink matching reader machine ⟨[], machine, .error (.notYaml fault)⟩
  | refused {reader rest : Yaml.Reader} {machine after : Machine σ} {event : Yaml.Event}
      {notes : Transcript} {error : Error} :
    reader.next = (some (.ok event), rest) →
    (Machine.step sink matching event).run machine = ⟨notes, after, .error error⟩ →
    Pulls sink matching reader machine ⟨notes, after, .error error⟩
  | accepted {reader rest : Yaml.Reader} {machine middle after : Machine σ} {event : Yaml.Event}
      {notes others : Transcript} {result : Except Error Image} :
    reader.next = (some (.ok event), rest) →
    (Machine.step sink matching event).run machine = ⟨notes, middle, .ok ()⟩ →
    Pulls sink matching rest middle ⟨others, after, result⟩ →
    Pulls sink matching reader machine ⟨notes ++ others, after, result⟩

section Pulls

variable {sink : PayloadSink σ} {matching : Matching} {reader : Yaml.Reader}

/-- The loop over the items of a reading ends as reading them at once does. -/
theorem pulls_of_gives
    {reading : Yaml.Reading}
    (gives : reader.Gives reading.items)
    (machine : Machine σ) :
    Pulls sink matching reader machine ((readReading sink matching reading).run machine) := by
  rcases reading with ⟨events, fault⟩
  induction events generalizing reader machine with
  | nil =>
    cases fault with
    | none =>
      cases gives with
      | nothing silent => exact .ended silent
    | some fault =>
      cases gives with
      | item called => exact .faulty called
  | cons event rest inductionHypothesis =>
    cases gives with
    | item called others =>
      rw [readReading_cons]
      cases told : ((Machine.step sink matching event).run machine).result with
      | error error =>
        rw [Action.run_bind_of_error told]
        exact .refused called (congrArg (Outcome.mk _ _) told)
      | ok done =>
        rw [Action.run_bind_of_ok told]
        exact .accepted called (congrArg (Outcome.mk _ _) told) (inductionHypothesis _ others)

/-- The loop ends in one way only. -/
theorem Pulls.functional
    {machine : Machine σ}
    {first second : Outcome (Machine σ) Error Image}
    (one : Pulls sink matching reader machine first)
    (two : Pulls sink matching reader machine second) :
    first = second := by
  induction one generalizing second with
  | ended silent =>
    cases two with
    | ended => rfl
    | faulty other | refused other | accepted other =>
      rw [silent] at other
      cases other
  | faulty called =>
    cases two with
    | faulty other =>
      rw [called] at other
      cases other
      rfl
    | ended other | refused other | accepted other =>
      rw [called] at other
      cases other
  | refused called told =>
    cases two with
    | refused other toldAgain =>
      rw [called] at other
      cases other
      rw [told] at toldAgain
      cases toldAgain
      rfl
    | accepted other toldAgain =>
      rw [called] at other
      cases other
      rw [told] at toldAgain
      cases toldAgain
    | ended other | faulty other =>
      rw [called] at other
      cases other
  | accepted called told later inductionHypothesis =>
    cases two with
    | accepted other toldAgain laterAgain =>
      rw [called] at other
      cases other
      rw [told] at toldAgain
      cases toldAgain
      cases inductionHypothesis laterAgain
      rfl
    | refused other toldAgain =>
      rw [called] at other
      cases other
      rw [told] at toldAgain
      cases toldAgain
    | ended other | faulty other =>
      rw [called] at other
      cases other

end Pulls

/-! ## The verdict on a text -/

section Verdict

variable {sink : PayloadSink σ} {matching : Matching} {text : String}

/-- The end of the stream is accepted only in front of it, so the machine is finished behind it. -/
theorem Machine.finished_of_accepted
    {start final : Machine σ}
    (sound : (Yaml.read text).fault = none)
    (accepted : (readAll sink matching (Yaml.read text).events).Succeeds start () final) :
    final.state = .finished := by
  obtain ⟨front, last, split, ends⟩ := Yaml.Stream.readAll_last sound
  rw [Yaml.read, split, readAll_append, Action.succeeds_bind] at accepted
  rcases accepted with ⟨_, middle, -, closed⟩
  rw [succeeds_readAll_iff_trace, List.map_singleton, Trace.singleton_iff, ends] at closed
  cases closed
  rfl

theorem succeeds_readReading_text
    {start final : Machine σ}
    {image : Image} :
    (readReading sink matching (Yaml.read text)).Succeeds start image final ↔
      (Yaml.read text).fault = none ∧
        (Machine.readAll sink matching (Yaml.read text).events).Succeeds start () final ∧
        final.draft.image = image := by
  unfold readReading
  cases known : (Yaml.read text).fault with
  | some fault => simp
  | none =>
    simp only [Action.succeeds_bind, Action.succeeds_look, Action.succeeds_ofExcept,
      Machine.finish_eq_ok_iff, true_and]
    constructor
    · rintro ⟨_, _, accepted, _, _, ⟨rfl, rfl⟩, ⟨-, rfl⟩, rfl⟩
      exact ⟨accepted, rfl⟩
    · rintro ⟨accepted, rfl⟩
      have finished := Machine.finished_of_accepted known accepted
      exact ⟨(), final, accepted, final, final, ⟨rfl, rfl⟩, ⟨finished, rfl⟩, rfl⟩

theorem fails_readReading_text
    {start final : Machine σ}
    {error : Error} :
    (readReading sink matching (Yaml.read text)).Fails start error final ↔
      (∃ fault, (Yaml.read text).fault = some fault ∧
        (Machine.readAll sink matching (Yaml.read text).events).Succeeds start () final ∧
        .notYaml fault = error) ∨
      (Machine.readAll sink matching (Yaml.read text).events).Fails start error final := by
  unfold readReading
  rw [Action.fails_bind, or_comm]
  apply or_congr_left
  cases known : (Yaml.read text).fault with
  | some fault =>
    constructor
    · rintro ⟨_, _, accepted, failed⟩
      obtain ⟨rfl, rfl⟩ := Action.fails_fail.mp failed
      exact ⟨fault, rfl, accepted, rfl⟩
    · rintro ⟨_, ⟨⟩, accepted, rfl⟩
      exact ⟨(), final, accepted, Action.fails_fail.mpr ⟨rfl, rfl⟩⟩
  | none =>
    constructor
    · rintro ⟨_, middle, accepted, failed⟩
      have finished := Machine.finished_of_accepted known accepted
      have closed : middle.finish = .ok middle.draft.image :=
        Machine.finish_eq_ok_iff.mpr ⟨finished, rfl⟩
      simp [closed] at failed
    · rintro ⟨_, ⟨⟩, _⟩

theorem run_fromStart (action : Action (Machine σ) Error Image) (store : σ) :
    (fromStart action).run store =
      { notes := (action.run (Machine.start store)).notes
        state := (action.run (Machine.start store)).state.draft.store
        result := (action.run (Machine.start store)).result } :=
  rfl

theorem result_read (store : σ) :
    ((read sink matching text).run store).result =
      ((readReading sink matching (Yaml.read text)).run (Machine.start store)).result := by
  rw [read, run_fromStart]

variable {store : σ}

/-- The loop over the events of a text ends in one way, which is how reading the text ends. -/
theorem exists_pulls_read_iff :
    ∃ final, final.draft.store = ((read sink matching text).run store).state ∧
      ∀ outcome, Pulls sink matching (Yaml.Reader.ofText text) (Machine.start store) outcome ↔
        outcome = ⟨((read sink matching text).run store).notes, final,
          ((read sink matching text).run store).result⟩ := by
  have loops : Pulls sink matching (Yaml.Reader.ofText text) (Machine.start store) _ :=
    pulls_of_gives (Yaml.Reader.gives_read text) (Machine.start store)
  rw [read, run_fromStart]
  generalize (readReading sink matching (Yaml.read text)).run (Machine.start store) = ended
    at loops ⊢
  refine ⟨ended.state, rfl, fun outcome => ⟨fun other => other.functional loops, ?_⟩⟩
  rintro rfl
  exact loops

theorem result_read_eq_ok_iff {image : Image} :
    ((read sink matching text).run store).result = .ok image ↔
      (∃ event ∈ (Yaml.read text).events, event.kind = .streamEnd) ∧
        ∃ final, (Machine.readAll sink matching (Yaml.read text).events).Succeeds
            (Machine.start store) () final ∧ final.draft.image = image := by
  have reached : (∃ event ∈ (Yaml.read text).events, event.kind = .streamEnd) ↔
      (Yaml.read text).fault = none := Yaml.Stream.fault_readAll_eq_none_iff.symm
  rw [result_read, reached]
  constructor
  · intro told
    have succeeded := succeeds_readReading_text.mp ⟨told, rfl⟩
    exact ⟨succeeded.1, _, succeeded.2⟩
  · rintro ⟨sound, final, described⟩
    exact (succeeds_readReading_text.mpr ⟨sound, described⟩).1

theorem result_read_eq_error_iff {error : Error} :
    ((read sink matching text).run store).result = .error error ↔
      (∃ fault final, (Yaml.read text).fault = some fault ∧
        (Machine.readAll sink matching (Yaml.read text).events).Succeeds
          (Machine.start store) () final ∧ .notYaml fault = error) ∨
      ∃ front event back middle after, (Yaml.read text).events = front ++ event :: back ∧
        (Machine.readAll sink matching front).Succeeds (Machine.start store) () middle ∧
        (Machine.step sink matching event).Fails middle error after := by
  rw [result_read]
  constructor
  · intro told
    rcases fails_readReading_text.mp ⟨told, rfl⟩ with ⟨fault, known, accepted, rfl⟩ | refused
    · exact .inl ⟨fault, _, known, accepted, rfl⟩
    · obtain ⟨front, event, back, middle, found⟩ := Machine.fails_readAll.mp refused
      exact .inr ⟨front, event, back, middle, _, found⟩
  · rintro (⟨fault, final, known, accepted, rfl⟩ | ⟨front, event, back, middle, after, found⟩)
    · exact (fails_readReading_text.mpr (.inl ⟨fault, known, accepted, rfl⟩)).1
    · have refused := Machine.fails_readAll.mpr ⟨front, event, back, middle, found⟩
      exact (fails_readReading_text.mpr (.inr refused)).1

/-- A text cannot end too early. -/
theorem result_read_ne_unexpectedEnd (state : String) :
    ((read sink matching text).run store).result ≠ .error (.unexpectedEnd state) := by
  intro told
  rcases result_read_eq_error_iff.mp told with
    ⟨_, _, _, _, impossible⟩ | ⟨_, event, _, _, _, _, _, refused⟩
  · cases impossible
  · exact Machine.step_raises event _ _ _ refused

theorem run_read_of_refused
    {front back : List Yaml.Event}
    {event : Yaml.Event}
    {middle after : Machine σ}
    {error : Error}
    (split : (Yaml.read text).events = front ++ event :: back)
    (accepted : (Machine.readAll sink matching front).Succeeds (Machine.start store) () middle)
    (refused : (Machine.step sink matching event).Fails middle error after) :
    (read sink matching text).run store =
      (readEvents sink matching (front ++ [event])).run store := by
  have same := run_readReading_of_refused accepted refused back (Yaml.read text).fault
  rw [← split] at same
  rw [read, readEvents, run_fromStart, run_fromStart, same]

/-- Reading a text ends as the loop over its events does, which ends. It is never told that the
text ended too early: either the end of the stream has been reached and every event been accepted,
or the reading has the first error in the order of the events, which is the fault of the text if
every event in front of it has been accepted, and the error of the first refused event else.
Nothing behind that event has an effect. -/
theorem read_ends_in_verdict
    (sink : PayloadSink σ)
    (matching : Matching)
    (text : String)
    (store : σ) :
    let reading := Yaml.read text
    let start := Machine.start store
    let outcome := (read sink matching text).run store
    -- The reader gives the events of the text and its fault, and the loop over them ends so.
    (Yaml.Reader.ofText text).Gives reading.items ∧
    (∃ final, final.draft.store = outcome.state ∧
      ∀ other, Pulls sink matching (Yaml.Reader.ofText text) start other ↔
        other = ⟨outcome.notes, final, outcome.result⟩) ∧
    -- How it ends.
    (∀ state, outcome.result ≠ .error (.unexpectedEnd state)) ∧
    (∀ image, outcome.result = .ok image ↔
      (∃ event ∈ reading.events, event.kind = .streamEnd) ∧
        ∃ final, (Machine.readAll sink matching reading.events).Succeeds start () final ∧
          final.draft.image = image) ∧
    (∀ error, outcome.result = .error error ↔
      (∃ fault final, reading.fault = some fault ∧
        (Machine.readAll sink matching reading.events).Succeeds start () final ∧
        .notYaml fault = error) ∨
      ∃ front event back middle after, reading.events = front ++ event :: back ∧
        (Machine.readAll sink matching front).Succeeds start () middle ∧
        (Machine.step sink matching event).Fails middle error after) ∧
    -- What stands behind the first refused event has no effect.
    ∀ front event back middle error after, reading.events = front ++ event :: back →
      (Machine.readAll sink matching front).Succeeds start () middle →
      (Machine.step sink matching event).Fails middle error after →
        outcome = (readEvents sink matching (front ++ [event])).run store := by
  exact ⟨Yaml.Reader.gives_read text, exists_pulls_read_iff, result_read_ne_unexpectedEnd,
    fun _ => result_read_eq_ok_iff, fun _ => result_read_eq_error_iff,
    fun _ _ _ _ _ _ => run_read_of_refused⟩

end Verdict

end HartBoot.Config
