import HartBoot.Config.Reading
import HartBoot.Proofs.Config.Attribute
import HartBoot.Proofs.Trace

/-!
Contract: the moves of the machine that reads a configuration.

Owns:
- `Move`, everything that an accepted event can do, one case for each kind of move;
- `succeeds_step_iff_move`, `succeeds_readAll_iff_trace` and `succeeds_readReading_iff_trace`, which
  say that the machine accepts events exactly when it can move along them.

Does not own: the texts that lead from the first state to the last one (see
`HartBoot.Proofs.Config.Parse`).
-/

namespace HartBoot.Config

open Yaml.Event (Kind)

variable {σ : Type}

/-- An event of a kind is accepted and leads from one state and draft to others. -/
inductive Move (sink : PayloadSink σ) (matching : Matching) :
    Kind → Machine σ → Machine σ → Prop where
  | openStream {draft : Draft σ} :
    Move sink matching .streamStart ⟨.idle, draft⟩ ⟨.stream, draft⟩
  | closeStream {draft : Draft σ} :
    Move sink matching .streamEnd ⟨.stream, draft⟩ ⟨.finished, draft⟩
  | openDocument {draft : Draft σ} :
    Move sink matching .documentStart ⟨.stream, draft⟩ ⟨.document, draft⟩
  | closeDocument {draft : Draft σ} :
    Move sink matching .documentEnd ⟨.document, draft⟩ ⟨.stream, draft⟩
  | openMapping {draft : Draft σ} :
    Move sink matching .mappingStart ⟨.document, draft⟩ ⟨.mapping, draft⟩
  | closeMapping {draft : Draft σ} :
    Move sink matching .mappingEnd ⟨.mapping, draft⟩ ⟨.document, draft⟩
  | section {draft : Draft σ} {key : String} {target : State} :
    (Keyword.resolve? matching key).bind Machine.sectionOf? = some target →
    Move sink matching (.scalar key) ⟨.mapping, draft⟩ ⟨target, draft⟩
  | setName {draft : Draft σ} {text : String} :
    Move sink matching (.scalar text) ⟨.setName, draft⟩ ⟨.mapping, draft.named text⟩
  | openEntries {draft : Draft σ} :
    Move sink matching .mappingStart ⟨.entryPoints, draft⟩ ⟨.entryPoints, draft⟩
  | closeEntries {draft : Draft σ} :
    Move sink matching .mappingEnd ⟨.entryPoints, draft⟩ ⟨.mapping, draft⟩
  | entryHart {draft : Draft σ} {key : String} {hart : Hart} :
    (Keyword.resolve? matching key).bind Keyword.hart? = some hart →
    Move sink matching (.scalar key) ⟨.entryPoints, draft⟩ ⟨.entryPoint hart, draft⟩
  | entryAddress {draft : Draft σ} {hart : Hart} {value : String} {address : UInt64} :
    Numeral.read? value = some address → (draft.image.settings hart).entry = none →
    Move sink matching (.scalar value) ⟨.entryPoint hart, draft⟩
      ⟨.entryPoints, draft.withEntry hart address⟩
  | openPayloads {draft : Draft σ} :
    Move sink matching .mappingStart ⟨.payloads, draft⟩ ⟨.payloads, draft⟩
  | closePayloads {draft : Draft σ} :
    Move sink matching .mappingEnd ⟨.payloads, draft⟩ ⟨.mapping, draft⟩
  | path {draft : Draft σ} {path : Path} :
    Move sink matching (.scalar path) ⟨.payloads, draft⟩ ⟨.block { path := path }, draft⟩
  | openBlock {draft : Draft σ} {block : Block} :
    Move sink matching .mappingStart ⟨.block block, draft⟩ ⟨.block block, draft⟩
  | closeBlock {draft : Draft σ} {block : Block} {owner : Hart} {store : σ} :
    block.owner = some owner →
    sink.Takes block.path owner block.address block.ancillary draft.store store →
    Move sink matching .mappingEnd ⟨.block block, draft⟩
      ⟨.payloads, draft.closeWith block owner store⟩
  | field {draft : Draft σ} {block : Block} {key : String} {field : Field} :
    (Keyword.resolve? matching key).bind Field.ofKeyword? = some field →
    Move sink matching (.scalar key) ⟨.block block, draft⟩ ⟨.field block field, draft⟩
  | value {before after : Filling σ} {field : Field} {value : String} {given : Attribute} :
    field.attribute? matching value = some given → Gives given before after →
    Move sink matching (.scalar value) ⟨.field before.block field, before.draft⟩
      ⟨.block after.block, after.draft⟩

/-- The state of the receiver changes only when a block is closed, and then within the frame of
the receiver. -/
theorem Move.allows_store
    {frame : Action.Frame σ}
    {sink : PayloadSink σ}
    (kept : sink.Respects frame)
    {matching : Matching}
    {kind : Kind}
    {before after : Machine σ}
    (move : Move sink matching kind before after) :
    frame.allows before.draft.store after.draft.store := by
  cases move with
  | closeBlock owned taken => exact kept.allows_of_takes taken
  | value meant gives =>
    rw [← gives.draft, Draft.store_assignAll]
    exact frame.refl _
  | _ => exact frame.refl _

theorem allows_store_of_trace
    {frame : Action.Frame σ}
    {sink : PayloadSink σ}
    (kept : sink.Respects frame)
    {matching : Matching}
    {kinds : List Kind}
    {before after : Machine σ}
    (trace : Trace (Move sink matching) kinds before after) :
    frame.allows before.draft.store after.draft.store := by
  refine trace.keeps (fun machine => frame.allows before.draft.store machine.draft.store) ?_
    (frame.refl _)
  intro kind first second move reached
  exact frame.trans reached (move.allows_store kept)

namespace Machine

variable {sink : PayloadSink σ} {matching : Matching} {before after : Machine σ}

theorem succeeds_step {event : Yaml.Event} {done : Unit} :
    (step sink matching event).Succeeds before done after ↔
      (advance sink matching before.state event).Succeeds before.draft after.state after.draft := by
  unfold Action.Succeeds Action.run step
  generalize advance sink matching before.state event before.draft = outcome
  rcases outcome with ⟨notes, draft, result⟩
  rcases after with ⟨target, final⟩
  cases result with
  | error failure => simp
  | ok state => simp

/-- The machine accepts an event exactly when it can move along it. -/
theorem succeeds_step_iff_move {event : Yaml.Event} {done : Unit} :
    (step sink matching event).Succeeds before done after ↔
      Move sink matching event.kind before after := by
  rcases event with ⟨kind, line, column⟩
  rcases before with ⟨source, draft⟩
  rcases after with ⟨target, final⟩
  rw [succeeds_step]
  constructor
  · intro accepted
    -- A pair of a state and a kind that is not named below is refused.
    cases source <;> cases kind <;> simp [advance] at accepted
    case mapping.scalar key =>
      rcases accepted with ⟨resolved, rfl⟩
      exact .section resolved
    case setName.scalar text =>
      rcases accepted with ⟨⟨_, named⟩, rfl⟩
      obtain rfl := Draft.succeeds_giveSetName.mp named
      exact .setName
    case entryPoints.scalar key =>
      rcases accepted with ⟨hart, ⟨resolved, rfl⟩, rfl⟩
      exact .entryHart resolved
    case entryPoint.scalar hart value =>
      rcases accepted with ⟨address, number, ⟨_, entered⟩, rfl⟩
      obtain ⟨free, rfl⟩ := Draft.succeeds_giveEntryPoint.mp entered
      exact .entryAddress number free
    case block.mappingEnd block =>
      rcases accepted with ⟨⟨_, closed⟩, rfl⟩
      obtain ⟨owner, store, owned, taken, rfl⟩ := Draft.succeeds_close.mp closed
      exact .closeBlock owned taken
    case block.scalar block key =>
      rcases accepted with ⟨field, ⟨resolved, rfl⟩, rfl⟩
      exact .field resolved
    case field.scalar block field value =>
      rcases accepted with ⟨filled, read, rfl⟩
      obtain ⟨given, meant, gives⟩ := succeeds_readField.mp read
      exact .value meant gives
    all_goals
      rcases accepted with ⟨rfl, rfl⟩
      constructor
  · intro move
    cases move
    case setName text => simp [advance, Draft.succeeds_giveSetName]
    case entryAddress number free => simp [advance, number, free, Draft.succeeds_giveEntryPoint]
    case closeBlock block owner store owned taken =>
      have closed :
          (Draft.close sink block).Succeeds draft () (draft.closeWith block owner store) :=
        Draft.succeeds_close.mpr ⟨owner, store, owned, taken, rfl⟩
      simpa [advance] using ⟨(), closed⟩
    case value before after field value given meant gives =>
      have read : ∀ place, (readField matching place before.block field value).Succeeds
          before.draft after.block after.draft :=
        fun _ => succeeds_readField.mpr ⟨given, meant, gives⟩
      simpa [advance] using read _
    all_goals simp [advance, *]

/-- The machine accepts events exactly when it can move along all of them. -/
theorem succeeds_readAll_iff_trace {events : List Yaml.Event} {done : Unit} :
    (readAll sink matching events).Succeeds before done after ↔
      Trace (Move sink matching) (events.map fun event => event.kind) before after := by
  induction events generalizing before with
  | nil => simp [readAll]
  | cons event rest inductionHypothesis =>
    rw [readAll, Action.succeeds_bind, List.map_cons, Trace.cons_iff]
    constructor
    · intro accepted
      rcases accepted with ⟨_, middle, first, others⟩
      exact ⟨middle, succeeds_step_iff_move.mp first, inductionHypothesis.mp others⟩
    · intro accepted
      rcases accepted with ⟨middle, first, others⟩
      exact ⟨(), middle, succeeds_step_iff_move.mpr first, inductionHypothesis.mpr others⟩

theorem finish_eq_ok_iff {machine : Machine σ} {image : Image} :
    machine.finish = .ok image ↔ machine.state = .finished ∧ machine.draft.image = image := by
  rcases machine with ⟨state, draft⟩
  cases state <;> simp [finish]

end Machine

/-- An event leads from one state to one other at most. -/
theorem Move.functional
    {sink : PayloadSink σ}
    {matching : Matching}
    {kind : Kind}
    {before after other : Machine σ}
    (first : Move sink matching kind before after)
    (second : Move sink matching kind before other) :
    after = other := by
  have one : (Machine.step sink matching ⟨kind, 0, 0⟩).Succeeds before () after :=
    Machine.succeeds_step_iff_move.mpr first
  have two : (Machine.step sink matching ⟨kind, 0, 0⟩).Succeeds before () other :=
    Machine.succeeds_step_iff_move.mpr second
  exact one.2.symm.trans two.2

theorem succeeds_fromStart
    {α : Type}
    {action : Action (Machine σ) Error α}
    {store final : σ}
    {value : α} :
    (fromStart action).Succeeds store value final ↔
      ∃ machine, action.Succeeds (Machine.start store) value machine ∧
        machine.draft.store = final := by
  constructor
  · intro accepted
    rcases accepted with ⟨succeeded, rfl⟩
    exact ⟨_, ⟨succeeded, rfl⟩, rfl⟩
  · intro accepted
    rcases accepted with ⟨machine, ⟨succeeded, rfl⟩, rfl⟩
    exact ⟨succeeded, rfl⟩

/-- A reading gives an image when it has no fault and the machine can move along its events up to
the end of the stream. -/
theorem succeeds_readReading_iff_trace
    {sink : PayloadSink σ}
    {matching : Matching}
    {reading : Yaml.Reading}
    {store final : σ}
    {image : Image} :
    (fromStart (readReading sink matching reading)).Succeeds store image final ↔
      reading.fault = none ∧
        ∃ draft,
          Trace (Move sink matching) (reading.events.map fun event => event.kind)
              (Machine.start store) ⟨.finished, draft⟩ ∧
            draft.image = image ∧ draft.store = final := by
  rw [succeeds_fromStart]
  unfold readReading
  cases reading.fault with
  | some fault => simp
  | none =>
    simp only [Action.succeeds_bind, Machine.succeeds_readAll_iff_trace, Action.succeeds_look,
      Action.succeeds_ofExcept, Machine.finish_eq_ok_iff, true_and]
    constructor
    · intro accepted
      rcases accepted with ⟨_, ⟨_, ⟨state, draft⟩, trace, _, _, ⟨rfl, rfl⟩, ⟨rfl, rfl⟩, rfl⟩, rfl⟩
      exact ⟨draft, trace, rfl, rfl⟩
    · intro accepted
      rcases accepted with ⟨draft, trace, rfl, rfl⟩
      exact ⟨_, ⟨(), _, trace, _, _, ⟨rfl, rfl⟩, ⟨rfl, rfl⟩, rfl⟩, rfl⟩

end HartBoot.Config
