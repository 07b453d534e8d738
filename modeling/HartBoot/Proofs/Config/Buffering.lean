import HartBoot.Proofs.Config.Feed
import HartBoot.Proofs.Config.Log

/-!
Contract: what the events inside a payload block do before the block is closed.

Owns:
- `Draft.assigning`, the frame of everything that only gives privilege modes to some harts;
- the law of buffering: inside a block an event leaves a draft as it is, but for the modes of the
  owner and of the secondary harts that the block has named so far.

The end of a mapping at a key of a block is the event that closes the block. It is left out here,
also where it fails.

Does not own: what the end of a block does (see `HartBoot.Proofs.Config.Draft`), nor which modes
can be given (see `HartBoot.Proofs.Config.Mode`).
-/

namespace HartBoot.Config

variable {σ : Type}

/-! ## Giving modes and nothing else -/

namespace Draft

open HartBoot.Action (Frame Respects)

/-- The frame of everything that makes some assignments of privilege modes and nothing else. -/
def assigning (allowed : Assignment → Prop) : Frame (Draft σ) where
  allows before after :=
    ∃ given, (∀ assignment ∈ given, allowed assignment) ∧ before.assignAll given = after
  refl draft := ⟨[], by simp, rfl⟩
  trans := by
    rintro first second third ⟨front, frontAllowed, rfl⟩ ⟨back, backAllowed, rfl⟩
    refine ⟨front ++ back, ?_, assignAll_append first front back⟩
    intro assignment member
    rcases List.mem_append.mp member with before | behind
    · exact frontAllowed assignment before
    · exact backAllowed assignment behind

section Assigning

variable {allowed : Assignment → Prop} {mode : Privilege}

theorem setPrivilege_assigns (assignment : Assignment) (permitted : allowed assignment) :
    (setPrivilege assignment.hart assignment.mode : Action (Draft σ) Error Unit).Respects
      (assigning allowed) := by
  unfold setPrivilege updateImage
  apply Respects.andThen Respects.say
  intro _
  apply Respects.change
  intro draft
  exact ⟨[assignment], by simpa using permitted, rfl⟩

theorem shareMode_assigns
    {harts : List Hart}
    (permitted : ∀ hart ∈ harts, allowed ⟨hart, mode, true⟩) :
    (shareMode mode harts : Action (Draft σ) Error Unit).Respects (assigning allowed) := by
  induction harts with
  | nil => exact Respects.pure
  | cons hart rest inductionHypothesis =>
    have behind := inductionHypothesis fun other member =>
      permitted other (List.mem_cons_of_mem hart member)
    unfold shareMode
    apply Respects.andThen Respects.look
    intro seen
    by_cases free : (seen.image.settings hart).privilege = .unset
    · rw [if_pos free]
      apply Respects.andThen (setPrivilege_assigns ⟨hart, mode, true⟩ ?_) fun _ => behind
      exact permitted hart List.mem_cons_self
    · rw [if_neg free]
      exact Respects.fail

/-- A privilege mode is given to the owner of a block and to its secondary harts, to all of them or
to those in front of the first one that has a mode. -/
theorem givePrivilege_assigns (block : Block) (mode : Privilege) :
    (givePrivilege block mode : Action (Draft σ) Error Block).Respects
      (assigning (· ∈ block.assignments mode)) := by
  unfold givePrivilege
  cases owned : block.owner with
  | none => exact Respects.fail
  | some owner =>
    have listed : block.assignments mode =
        ⟨owner, mode, false⟩ :: block.secondaries.map fun hart => ⟨hart, mode, true⟩ := by
      rw [Block.assignments, owned]
    apply Respects.andThen Respects.say
    intro _
    apply Respects.andThen (setPrivilege_assigns ⟨owner, mode, false⟩ (by simp [listed]))
    intro _
    apply Respects.andThen (shareMode_assigns _) fun _ => Respects.pure
    intro hart member
    simp [listed, member]

end Assigning

/-- The mode of a hart is the one that it had, or one that it has received. -/
theorem modeFrom_cases (start : Privilege) (history : List Assignment) (hart : Hart) :
    modeFrom start history hart = start ∨
      ∃ assignment ∈ history,
        assignment.hart = hart ∧ assignment.mode = modeFrom start history hart := by
  induction history generalizing start with
  | nil => exact .inl rfl
  | cons assignment rest inductionHypothesis =>
    by_cases same : assignment.hart = hart
    · have first : modeFrom start (assignment :: rest) hart =
          modeFrom assignment.mode rest hart := by
        simp [modeFrom, same]
      rw [first]
      rcases inductionHypothesis assignment.mode with kept | ⟨later, member, received⟩
      · exact .inr ⟨assignment, List.mem_cons_self, same, kept.symm⟩
      · exact .inr ⟨later, List.mem_cons_of_mem _ member, received⟩
    · have first : modeFrom start (assignment :: rest) hart = modeFrom start rest hart := by
        simp [modeFrom, same]
      rw [first]
      rcases inductionHypothesis start with kept | ⟨later, member, received⟩
      · exact .inl kept
      · exact .inr ⟨later, List.mem_cons_of_mem _ member, received⟩

end Draft

/-- The harts of the assignments of a block are its owner and its secondary harts. -/
theorem Block.of_mem_assignments
    {block : Block}
    {mode : Privilege}
    {assignment : Assignment}
    (member : assignment ∈ block.assignments mode) :
    assignment.mode = mode ∧ block.owner.isSome ∧
      (block.owner = some assignment.hart ∨ assignment.hart ∈ block.secondaries) := by
  cases owned : block.owner with
  | none => simp [Block.assignments, owned] at member
  | some owner =>
    simp only [Block.assignments, owned, List.mem_cons, List.mem_map] at member
    rcases member with rfl | ⟨hart, listed, rfl⟩
    · exact ⟨rfl, rfl, .inl rfl⟩
    · exact ⟨rfl, rfl, .inr listed⟩

/-! ## The law of buffering -/

namespace Machine

variable {sink : PayloadSink σ} {matching : Matching} {machine : Machine σ} {block : Block}
  {event : Yaml.Event}

/-- An event inside a block makes some of the assignments of its value, if that is a privilege mode,
and does nothing else. -/
theorem advance_assigns
    (inside : machine.state.block? = some block)
    (running : ∀ given, machine.state = .block given → event.kind ≠ .mappingEnd) :
    (advance sink matching machine.state event).Respects
      (Draft.assigning fun assignment =>
        ∃ value mode, machine.state = .field block .privMode ∧ event.kind = .scalar value ∧
          (Keyword.resolve? matching value).bind Keyword.privilege? = some mode ∧
          assignment ∈ block.assignments mode) := by
  apply advance_respects_frame
  · intro text naming
    rw [naming] at inside
    cases inside
  · intro hart address entering
    rw [entering] at inside
    cases inside
  · intro place given field value reading told
    obtain rfl : given = block := by
      rw [reading] at inside
      exact Option.some.inj inside
    apply readField_respects_frame
    intro mode meant
    obtain ⟨rfl, known⟩ := Field.attribute?_eq_privMode_iff.mp meant
    apply (Draft.givePrivilege_assigns given mode).widen
    rintro before after ⟨assignments, listed, rfl⟩
    exact ⟨assignments, fun assignment member =>
      ⟨value, mode, reading, told, known, listed assignment member⟩, rfl⟩
  · exact fun given closing ends => absurd ends (running given closing)

/-- Inside a payload block, whatever comes before the event that closes it, be it accepted or
refused, leaves the receiver, the count of closed blocks, the set name, and the entry point, name
and flags of every hart as they are. All that can change are the modes of the owner of the block
and of the secondary harts that it has named so far, and only a privilege mode changes them. -/
theorem only_modes_change_in_block
    (sink : PayloadSink σ)
    (matching : Matching)
    (machine : Machine σ)
    (block : Block)
    (event : Yaml.Event)
    (inside : machine.state.block? = some block)
    (running : ∀ given, machine.state = .block given → event.kind ≠ .mappingEnd) :
    let after := ((step sink matching event).run machine).state
    after.draft.store = machine.draft.store ∧
      after.draft.closed = machine.draft.closed ∧
      after.draft.nameFixed = machine.draft.nameFixed ∧
      after.draft.image.setName = machine.draft.image.setName ∧
      ∀ hart,
        let old := machine.draft.image.settings hart
        let new := after.draft.image.settings hart
        new.entry = old.entry ∧ new.name = old.name ∧ new.flags = old.flags ∧
          (new.privilege ≠ old.privilege →
            ∃ value, machine.state = .field block .privMode ∧ event.kind = .scalar value ∧
              (Keyword.resolve? matching value).bind Keyword.privilege? = some new.privilege ∧
              block.owner.isSome ∧ (block.owner = some hart ∨ hart ∈ block.secondaries)) := by
  intro after
  obtain ⟨given, allowed, same⟩ := advance_assigns inside running machine.draft
  have reached : after.draft = machine.draft.assignAll given :=
    (draft_step event machine).trans same.symm
  rw [reached]
  refine ⟨by simp, by simp, by simp, by simp, ?_⟩
  intro hart
  dsimp only
  rw [Draft.settings_assignAll]
  refine ⟨rfl, rfl, rfl, ?_⟩
  intro changed
  rcases Draft.modeFrom_cases (machine.draft.image.settings hart).privilege given hart with
    kept | ⟨assignment, member, rfl, received⟩
  · exact absurd kept changed
  · obtain ⟨value, mode, reading, told, known, listed⟩ := allowed assignment member
    obtain ⟨rfl, owned, concerned⟩ := Block.of_mem_assignments listed
    exact ⟨value, reading, told, received ▸ known, owned, concerned⟩

/-- A mode that the last of the secondary harts cannot take is refused, but the owner and the other
one have taken it by then. The name of the block is not used yet. -/
theorem only_modes_change_in_block_conflict :
    let kinds : List Yaml.Event.Kind :=
      [.streamStart, .documentStart, .mappingStart, .scalar "payloads", .mappingStart,
        .scalar "a", .mappingStart, .scalar "owner-hart", .scalar "u54_3",
        .scalar "priv-mode", .scalar "prv_s", .mappingEnd,
        .scalar "b", .mappingStart, .scalar "owner-hart", .scalar "u54_1",
        .scalar "secondary-hart", .scalar "u54_2", .scalar "secondary-hart", .scalar "u54_3",
        .scalar "priv-mode"]
    let events := Yaml.Event.ofKinds kinds
    let sink := PayloadSink.answering fun _ => true
    let machine := feed sink .whole (start ()) events
    let block : Block := { path := "b", owner := some .u54_1, secondaries := [.u54_2, .u54_3] }
    let event : Yaml.Event := ⟨.scalar "prv_m", 1, 0⟩
    let after := ((step sink .whole event).run machine).state
    machine.state.block? = some block ∧
      (∀ given, machine.state = .block given → event.kind ≠ .mappingEnd) ∧
      ((step sink .whole event).run machine).result =
        .error (.privModeConflict .u54_3 .machine .supervisor) ∧
      after.draft.closed = machine.draft.closed ∧
      after.draft.image.setName = machine.draft.image.setName ∧
      (after.draft.image.settings .u54_1).name = (machine.draft.image.settings .u54_1).name ∧
      (machine.draft.image.settings .u54_2).privilege = .unset ∧
      (after.draft.image.settings .u54_2).privilege = .machine ∧
      machine.state = .field block .privMode := by
  intro kinds events sink machine block event
  have inside : machine.state.block? = some block := by decide +kernel
  have running : ∀ given, machine.state = .block given → event.kind ≠ .mappingEnd := by
    intro given _
    exact Yaml.Event.Kind.noConfusion
  have law := only_modes_change_in_block sink .whole machine block event inside running
  have reading : machine.state = .field block .privMode :=
    ((law.2.2.2.2 .u54_2).2.2.2 (by decide +kernel)).elim fun _ found => found.1
  exact ⟨inside, running, by decide +kernel, law.2.1, law.2.2.2.1, (law.2.2.2.2 .u54_1).2.1,
    by decide +kernel, by decide +kernel, reading⟩

end Machine

end HartBoot.Config
