import HartBoot.Proofs.Config.Feed
import HartBoot.Proofs.Config.Mode

/-!
Contract: what an event that is refused leaves behind.

Owns:
- `Error.isRefusal`, the errors that are found before an event has done anything;
- `kept_of_fails_advance`, which says that such an error leaves the draft as it is;
- the law of refusal: a machine stays as it is after any error, and refuses every further event.

Does not own: what a privilege conflict, a missing owner or a fault of the receiver leave behind
(see `HartBoot.Proofs.Config.Mode` and `HartBoot.Proofs.Config.Requests`).
-/

namespace HartBoot.Config

open Yaml.Event (Kind)

variable {σ : Type}

/-- The errors that are found before an event has done anything. -/
def Error.isRefusal : Error → Bool
  | .illegalEvent _ _ | .illegalToken _ _ | .invalidNumber _ _ | .invalidBool _ _
  | .duplicateEntryPoint _ | .tooManySecondaries _ _ | .privModeWithoutOwner _ => true
  | _ => false

/-! ## Effects that fail -/

namespace Draft

variable {before after : Draft σ} {error : Error}

@[simp] theorem not_fails_giveSetName {text : String} :
    ¬ (giveSetName text).Fails before error after := by
  simp [giveSetName, fixSetName, takeSetName, updateImage]

@[simp] theorem fails_giveEntryPoint {hart : Hart} {address : UInt64} :
    (giveEntryPoint hart address).Fails before error after ↔
      (before.image.settings hart).entry.isSome ∧ .duplicateEntryPoint hart = error ∧
        before = after := by
  cases given : (before.image.settings hart).entry with
  | none => simp [giveEntryPoint, updateImage, given]
  | some taken => simp [giveEntryPoint, given]

/-- A mode that is not taken for the lack of an owner is given to no hart. -/
theorem kept_of_fails_givePrivilege
    {block : Block}
    {mode : Privilege}
    (failed : (givePrivilege block mode).Fails before error after)
    (refusal : error.isRefusal) :
    before = after := by
  cases owned : block.owner with
  | none =>
    rw [givePrivilege, owned] at failed
    exact (Action.fails_fail.mp failed).2
  | some owner =>
    obtain ⟨_, _, _, _, _, _, rfl, _⟩ := fails_shareMode.mp ((fails_givePrivilege owned).mp failed)
    cases refusal

/-- A block that cannot be closed is not refused before it has added to the set name. -/
theorem not_isRefusal_of_fails_close
    {sink : PayloadSink σ}
    {block : Block}
    (failed : (close sink block).Fails before error after) :
    ¬ error.isRefusal := by
  unfold close at failed
  rcases Action.fails_bind.mp failed with unnamed | ⟨_, middle, named, behind⟩
  · have composed : (nameSetAfter block).Succeeds before () (before.composeName block) :=
      succeeds_nameSetAfter.mpr rfl
    exact absurd unnamed (Action.not_fails_of_succeeds composed)
  · cases owned : block.owner with
    | none =>
      rw [owned] at behind
      obtain ⟨rfl, -⟩ := Action.fails_fail.mp behind
      exact Bool.false_ne_true
    | some owner =>
      rw [owned] at behind
      simp [takeHartName, updateImage, submit] at behind
      obtain ⟨fault, store, -, rfl, -⟩ := behind
      exact Bool.false_ne_true

end Draft

namespace Machine

variable {sink : PayloadSink σ} {matching : Matching} {before after : Draft σ} {error : Error}

@[simp] theorem fails_addSecondary {block : Block} {hart : Hart} :
    (addSecondary block hart).Fails before error after ↔
      maxSecondaries ≤ block.secondaries.length ∧
        .tooManySecondaries block.path maxSecondaries = error ∧ before = after := by
  unfold addSecondary
  by_cases room : block.secondaries.length < maxSecondaries
  · have fits : ¬ maxSecondaries ≤ block.secondaries.length := Nat.not_le_of_lt room
    simp [room, fits]
  · have full : maxSecondaries ≤ block.secondaries.length := Nat.le_of_not_lt room
    simp [room, full]

theorem kept_of_fails_readField
    {place : Place}
    {block : Block}
    {field : Field}
    {value : String}
    (failed : (readField matching place block field value).Fails before error after)
    (refusal : error.isRefusal) :
    before = after := by
  cases field with
  | execAddr | ownerHart | skipOpenSbi | skipAutoboot | allowReboot =>
    rcases Action.kept_or_fails_of_fails_ofOption_bind failed with kept | ⟨_, impossible⟩
    · exact kept
    · simp at impossible
  | payloadName | ancillaryData => simp [readField] at failed
  | secondaryHart =>
    rcases Action.kept_or_fails_of_fails_ofOption_bind failed with kept | ⟨hart, full⟩
    · exact kept
    · exact (fails_addSecondary.mp full).2.2
  | privMode =>
    rcases Action.kept_or_fails_of_fails_ofOption_bind failed with kept | ⟨mode, unowned⟩
    · exact kept
    · exact Draft.kept_of_fails_givePrivilege unowned refusal

/-- An event that is refused before it has done anything leaves the draft as it is. -/
theorem kept_of_fails_advance
    {state : State}
    {event : Yaml.Event}
    (failed : (advance sink matching state event).Fails before error after)
    (refusal : error.isRefusal) :
    before = after := by
  rcases event with ⟨kind, line, column⟩
  -- A pair of a state and a kind that is not named below does nothing, or is an illegal event.
  cases state <;> cases kind
  case mapping.scalar key => exact (Action.fails_ofOption.mp failed).2.2
  case setName.scalar text =>
    exact absurd (Action.fails_of_fails_bind_pure failed) Draft.not_fails_giveSetName
  case entryPoints.scalar key =>
    exact (Action.fails_ofOption.mp (Action.fails_of_fails_bind_pure failed)).2.2
  case entryPoint.scalar hart value =>
    rcases Action.kept_or_fails_of_fails_ofOption_bind failed with kept | ⟨address, taken⟩
    · exact kept
    · exact (Draft.fails_giveEntryPoint.mp (Action.fails_of_fails_bind_pure taken)).2.2
  case payloads.scalar path =>
    exact absurd (Action.fails_of_fails_bind_pure failed) Action.fails_say
  case block.mappingEnd block =>
    have unclosed := Action.fails_of_fails_bind_pure failed
    exact absurd refusal (Draft.not_isRefusal_of_fails_close unclosed)
  case block.scalar block key =>
    exact (Action.fails_ofOption.mp (Action.fails_of_fails_bind_pure failed)).2.2
  case field.scalar block field value =>
    exact kept_of_fails_readField (Action.fails_of_fails_bind_pure failed) refusal
  all_goals
    simp [advance] at failed
  all_goals exact failed.2

/-! ## The law of refusal -/

/-- A machine that has refused an event refuses every further one, and has no image at the end. -/
theorem refuses_of_rejected (draft : Draft σ) (event : Yaml.Event) :
    (step sink matching event).Fails ⟨.rejected, draft⟩
      (.illegalEvent ⟨"Failed", event.line, event.column⟩ event.kind) ⟨.rejected, draft⟩ :=
  ⟨rfl, rfl⟩

/-- An event that a machine refuses before it has done anything leaves the draft as it is. After
any error the draft never changes again, whatever comes: every event is refused as illegal, and
there is no image. -/
theorem draft_stays_of_refused
    (sink : PayloadSink σ)
    (matching : Matching)
    (machine after : Machine σ)
    (event : Yaml.Event)
    (error : Error)
    (refused : (step sink matching event).Fails machine error after) :
    (error.isRefusal → after.draft = machine.draft) ∧
      ∀ later next,
        let reached := feed sink matching after later
        reached.draft = after.draft ∧
          (step sink matching next).Fails reached
            (.illegalEvent ⟨"Failed", next.line, next.column⟩ next.kind) reached ∧
          reached.finish = .error (.unexpectedEnd "Failed") := by
  obtain ⟨failed, rejected⟩ := fails_step.mp refused
  constructor
  · exact fun refusal => (kept_of_fails_advance failed refusal).symm
  · intro later next reached
    have stays : reached = ⟨.rejected, after.draft⟩ := by
      rcases after with ⟨state, draft⟩
      obtain rfl : state = .rejected := rejected
      exact feed_of_rejected draft later
    rw [stays]
    exact ⟨rfl, refuses_of_rejected after.draft next, rfl⟩

/-- A second entry point for a hart is refused, and so is the correct end of the stream. -/
theorem draft_stays_of_refused_entryPoint :
    let front := Yaml.Event.ofKinds
      [.streamStart, .documentStart, .mappingStart, .scalar "hart-entry-points",
        .mappingStart, .scalar "u54_1", .scalar "0x10", .scalar "u54_1"]
    let again : Yaml.Event := ⟨.scalar "0x20", 5, 9⟩
    let later := Yaml.Event.ofKinds [.mappingEnd, .mappingEnd, .documentEnd]
    let sink := PayloadSink.answering fun _ => true
    let machine := feed sink .whole (start ()) front
    let after : Machine Unit := ⟨.rejected, machine.draft⟩
    (readAll sink .whole front).Succeeds (start ()) () machine ∧
      (step sink .whole again).Fails machine (.duplicateEntryPoint .u54_1) after ∧
      after.draft = machine.draft ∧
      (step sink .whole ⟨.streamEnd, 7, 0⟩).Fails (feed sink .whole after later)
        (.illegalEvent ⟨"Failed", 7, 0⟩ .streamEnd) (feed sink .whole after later) ∧
      (feed sink .whole after later).finish = .error (.unexpectedEnd "Failed") := by
  intro front again later sink machine after
  have read : (readAll sink .whole front).Succeeds (start ()) () machine := ⟨rfl, rfl⟩
  have refused : (step sink .whole again).Fails machine (.duplicateEntryPoint .u54_1) after :=
    ⟨rfl, rfl⟩
  obtain ⟨kept, forever⟩ := draft_stays_of_refused sink .whole machine after again _ refused
  exact ⟨read, refused, kept rfl, (forever later ⟨.streamEnd, 7, 0⟩).2⟩

end Machine

end HartBoot.Config
