import HartBoot.Proofs.Config.Feed
import HartBoot.Proofs.Config.Mode

/-!
Contract: what is always true of the payload block that is being read.

Owns:
- `Block.Sound`, how the fields of a block go together, and `Block.Sound.take`, which says that no
  attribute that is accepted breaks this;
- `Move.owner_stays`, for a block that has an owner;
- `Move.tally`, the balance of the blocks that have been opened and those that have been closed, and
  `Recounts.closed`, the number of the latter;
- the law of the open block, for every machine that has been fed any events.

Does not own: which attributes are accepted (see `HartBoot.Proofs.Config.Attribute`), nor which
attributes an account lists for the open block (see `HartBoot.Proofs.Config.Log`).
-/

namespace HartBoot.Config

open Yaml.Event (Kind)

variable {σ : Type} {sink : PayloadSink σ} {matching : Matching}

/-! ## Fields that go together -/

/-- The fields of a block go together: there are not too many secondary harts, an ancillary file is
named when one is announced, a cold reboot comes with a warm one, and there is a privilege mode. -/
structure Block.Sound (block : Block) : Prop where
  few : block.secondaries.length ≤ maxSecondaries
  ancillary : block.ancillary.isSome ↔ block.entitlements.ancillaryData
  reboot : block.entitlements.allowColdReboot → block.entitlements.allowWarmReboot
  privilege : block.privilege ≠ .unset

theorem Block.Sound.of_path (path : Path) : ({ path := path } : Block).Sound where
  few := Nat.zero_le maxSecondaries
  ancillary := by simp
  reboot := by simp
  privilege := Privilege.noConfusion

/-- An attribute for which there is room leaves the fields of a block in order. -/
theorem Block.Sound.take
    {block : Block}
    {given : Attribute}
    (sound : block.Sound)
    (fits : given.Fits block)
    (chosen : given ≠ .privMode .unset) :
    (block.take given).Sound := by
  rcases sound with ⟨few, ancillary, reboot, privilege⟩
  cases given with
  | secondaryHart hart =>
    refine ⟨?_, ancillary, reboot, privilege⟩
    rw [secondaries_take, List.length_append]
    exact Nat.succ_le_of_lt fits
  | privMode mode =>
    refine ⟨few, ancillary, reboot, ?_⟩
    rintro rfl
    exact chosen rfl
  | allowReboot kind =>
    cases kind with
    | warm => exact ⟨few, ancillary, fun _ => rfl, privilege⟩
    | cold => exact ⟨few, ancillary, fun _ => rfl, privilege⟩
  | ancillaryData path => exact ⟨few, by simp [Block.take], reboot, privilege⟩
  | _ => exact ⟨few, ancillary, reboot, privilege⟩

/-- If a machine is reading a block, the fields of that block go together. -/
def Machine.Sound (machine : Machine σ) : Prop :=
  ∀ block, machine.state.block? = some block → block.Sound

section Step

variable {kind : Kind} {before after : Machine σ} {block : Block}

theorem Move.keeps_sound
    (move : Move sink matching kind before after)
    (sound : before.Sound) :
    after.Sound := by
  intro block inside
  cases move with
  | «section» named =>
    obtain ⟨keyword, -, meant⟩ := Option.bind_eq_some_iff.mp named
    rw [block?_of_section meant] at inside
    cases inside
  | path =>
    cases inside
    exact .of_path _
  | openBlock => exact sound block inside
  | field named => exact sound block inside
  | value meant gives =>
    obtain rfl := Option.some.inj inside
    rw [← gives.block]
    refine (sound _ rfl).take gives.fits ?_
    rintro rfl
    exact mode_ne_unset_of_attribute? meant rfl
  | _ => cases inside

/-- A block that has an owner has one as long as it is not closed. -/
theorem Move.owner_stays
    (move : Move sink matching kind before after)
    (inside : before.state.block? = some block)
    (owned : block.owner.isSome)
    (unclosed : before.state.saying? matching kind ≠ some .close) :
    ∃ later, after.state.block? = some later ∧ later.owner.isSome := by
  cases move with
  | openBlock => exact ⟨block, inside, owned⟩
  | field named => exact ⟨block, inside, owned⟩
  | closeBlock known taken => exact absurd rfl unclosed
  | value meant gives =>
    obtain rfl := Option.some.inj inside
    refine ⟨_, rfl, ?_⟩
    rw [← gives.block]
    exact (isSome_owner_take _ _).mpr (.inl owned)
  | _ => cases inside

/-! ## Blocks that are opened and closed -/

/-- Something that is said opens a block. -/
def Saying.opens : Saying → Bool
  | .path _ => true
  | _ => false

/-- The number of blocks that are being read. -/
def State.openBlocks (state : State) : Nat :=
  state.block?.toList.length

theorem State.openBlocks_of_inside {state : State} (inside : state.block? = some block) :
    state.openBlocks = 1 := by
  rw [openBlocks, inside]
  rfl

theorem State.openBlocks_of_outside {state : State} (outside : state.block? = none) :
    state.openBlocks = 0 := by
  rw [openBlocks, outside]
  rfl

/-- The counter of a machine goes up when a block is closed; a block that is opened is being read
until then. -/
theorem Move.tally (move : Move sink matching kind before after) :
    let said := (before.state.saying? matching kind).toList
    after.draft.closed = before.draft.closed + said.count .close ∧
      said.countP Saying.opens + before.state.openBlocks =
        said.count .close + after.state.openBlocks := by
  cases move with
  | «section» named =>
    obtain ⟨keyword, -, meant⟩ := Option.bind_eq_some_iff.mp named
    rw [State.openBlocks_of_outside (block?_of_section meant)]
    exact ⟨rfl, rfl⟩
  | entryAddress number free =>
    simp [State.saying?, number, State.openBlocks, State.block?, Saying.opens, Draft.withEntry]
  | value meant gives =>
    have closed := congrArg Draft.closed gives.draft
    rw [Draft.closed_assignAll] at closed
    simp [State.saying?, meant, State.openBlocks, State.block?, Saying.opens, closed]
  | _ =>
    simp [State.saying?, State.openBlocks, State.block?, Saying.opens, Draft.named,
      Draft.closeWith]

end Step

/-! ## Runs -/

namespace Machine

section Run

variable {events : List Yaml.Event} {before after : Machine σ} {block : Block}

/-- A machine that is reading a block has accepted everything that it has been fed. -/
theorem accepted_of_inside
    (inside : (feed sink matching before events).state.block? = some block) :
    (readAll sink matching events).Succeeds before () (feed sink matching before events) := by
  rcases feed_cases sink matching before events with accepted | refusal
  · exact accepted
  · obtain ⟨_, _, _, _, _, _, _, refused⟩ := refusal
    rw [(fails_step.mp refused).2] at inside
    cases inside

theorem sound_of_accepted
    (sound : before.Sound)
    (accepted : (readAll sink matching events).Succeeds before () after) :
    after.Sound :=
  (succeeds_readAll_iff_trace.mp accepted).keeps Machine.Sound
    (fun _ _ _ move known => move.keeps_sound known) sound

/-- Some events add to the counter as many blocks as they close, and those that they open are closed
by them or being read behind them. -/
theorem tally_of_accepted
    (accepted : (readAll sink matching events).Succeeds before () after) :
    let log := before.log sink matching events
    after.draft.closed = before.draft.closed + log.count .close ∧
      log.countP Saying.opens + before.state.openBlocks =
        log.count .close + after.state.openBlocks := by
  induction events generalizing before with
  | nil =>
    obtain ⟨-, rfl⟩ := Action.succeeds_pure.mp accepted
    exact ⟨rfl, rfl⟩
  | cons event rest inductionHypothesis =>
    obtain ⟨_, middle, first, others⟩ := Action.succeeds_bind.mp accepted
    obtain ⟨closedFirst, openFirst⟩ := (succeeds_step_iff_move.mp first).tally
    obtain ⟨closedLater, openLater⟩ := inductionHypothesis others
    rw [log_cons_of_accepted first]
    dsimp only
    rw [List.count_append, List.countP_append]
    omega

theorem owner_stays_of_accepted
    (accepted : (readAll sink matching events).Succeeds before () after)
    (unclosed : .close ∉ before.log sink matching events)
    (inside : before.state.block? = some block)
    (owned : block.owner.isSome) :
    ∃ later, after.state.block? = some later ∧ later.owner.isSome := by
  induction events generalizing before block with
  | nil =>
    obtain ⟨-, rfl⟩ := Action.succeeds_pure.mp accepted
    exact ⟨block, inside, owned⟩
  | cons event rest inductionHypothesis =>
    obtain ⟨_, middle, first, others⟩ := Action.succeeds_bind.mp accepted
    rw [log_cons_of_accepted first, List.mem_append, not_or] at unclosed
    have unsaid : before.state.saying? matching event.kind ≠ some .close :=
      fun said => unclosed.1 (Option.mem_toList.mpr said)
    obtain ⟨next, insideNext, ownedNext⟩ :=
      (succeeds_step_iff_move.mp first).owner_stays inside owned unsaid
    exact inductionHypothesis others unclosed.2 insideNext ownedNext

end Run

end Machine

/-- A block that has been given a privilege mode has an owner. -/
theorem Recounts.owned_of_mode
    {account : Account}
    {start : Draft σ}
    {machine : Machine σ}
    {block : Block}
    {mode : Privilege}
    (recounted : Recounts sink account start machine)
    (inside : machine.state.block? = some block)
    (given : .privMode mode ∈ account.attributes) :
    block.owner.isSome := by
  rcases machine with ⟨state, draft⟩
  obtain ⟨path, attributes, base, current, -, trace⟩ := recounted.inside inside
  rw [Account.attributes, current] at given
  obtain ⟨front, back, rfl⟩ := List.append_of_mem given
  obtain ⟨fitting, -, filled, -⟩ := trace_gives_iff.mp trace
  have owned : (Block.of path front).owner.isSome := fitting front (.privMode mode) back rfl
  have whole : (Block.of path front).fill (.privMode mode :: back) = block :=
    List.foldl_append.symm.trans filled
  rw [← whole]
  exact (isSome_owner_fill _ _).mpr (.inl owned)

theorem closed_of_performs
    {item : Item}
    {before after : Draft σ}
    (performed : Performs sink item before after) :
    after.closed = before.closed + item.described.length := by
  cases item with
  | setName text =>
    obtain rfl := performed
    rfl
  | entryPoint point =>
    obtain ⟨-, rfl⟩ := performed
    rfl
  | payload path attributes =>
    obtain ⟨filled, owner, store, given, -, -, rfl⟩ := performed
    obtain ⟨-, -, -, assigned⟩ := trace_gives_iff.mp given
    show filled.draft.closed + 1 = _
    rw [← assigned, Draft.closed_assignAll]
    rfl

/-- The counter of a machine counts the blocks that have been closed. -/
theorem Recounts.closed
    {account : Account}
    {store : σ}
    {machine : Machine σ}
    (recounted : Recounts sink account (Draft.initial store) machine) :
    machine.draft.closed = (account.items.flatMap Item.described).length := by
  rcases account with ⟨items, current⟩
  rcases recounted with ⟨base, performed, stands⟩
  have counted : base.closed = (items.flatMap Item.described).length := by
    have counts : ∀ front item before after, Performs sink item before after →
        before.closed = (front.flatMap Item.described).length →
          after.closed = ((front ++ [item]).flatMap Item.described).length := by
      intro front item before after performs known
      rw [closed_of_performs performs, known, List.flatMap_append, List.flatMap_singleton,
        List.length_append]
    exact performed.carries
      (fun items draft => draft.closed = (items.flatMap Item.described).length) counts rfl
  cases current with
  | none =>
    rw [stands.2]
    exact counted
  | some given =>
    obtain ⟨block, -, filled⟩ := stands
    obtain ⟨-, -, -, assigned⟩ := trace_gives_iff.mp filled
    exact (congrArg Draft.closed assigned).symm.trans ((Draft.closed_assignAll _ _).trans counted)

/-! ## The law of the open block -/

namespace Machine

/-- While a machine is reading a block, whatever it has been fed, the fields of the block go
together. What has been said is what the events write down, and the block is the one that the
attributes since the last path describe. If one of these is a privilege mode, the block has an
owner, and it will have one until it is closed. Of the blocks that have been opened, this is the
only one that has not been closed, and the machine has counted the other ones. -/
theorem open_block_of_feed
    (sink : PayloadSink σ)
    (matching : Matching)
    (events : List Yaml.Event)
    (store : σ)
    (block : Block)
    (inside : (feed sink matching (start store) events).state.block? = some block) :
    let machine := feed sink matching (start store) events
    let log := (start store).log sink matching events
    let account := Account.of log
    block.Sound ∧
      (∃ front : Front,
        front.Spells matching (events.map fun event => event.kind) ∧ front.account = account ∧
          front.blocks.length = machine.draft.closed) ∧
      (∃ path, account.current = some (path, account.attributes) ∧
        Block.describedBy path account.attributes = block) ∧
      (∀ mode, .privMode mode ∈ account.attributes →
        block.owner.isSome ∧
          ∀ more later, .close ∉ machine.log sink matching more →
            (feed sink matching machine more).state.block? = some later →
              later.owner.isSome) ∧
      log.countP Saying.opens = log.count .close + 1 ∧
      machine.draft.closed = log.count .close := by
  intro machine log account
  have accepted := accepted_of_inside inside
  have recounted := recounts_of_accepted accepted
  obtain ⟨closed, opened⟩ := tally_of_accepted accepted
  refine ⟨?_, ?_, ?_, ?_, ?_, ?_⟩
  · have idle : (start store).Sound := by
      intro _ reading
      cases reading
    exact sound_of_accepted idle accepted block inside
  · obtain ⟨front, spelled, told⟩ := exists_front_of_accepted accepted
    have listed : front.items = account.items := congrArg Account.items told
    refine ⟨front, spelled, told, ?_⟩
    rw [recounted.closed, Front.blocks, listed]
  · obtain ⟨path, attributes, current, described⟩ := recounted.current inside
    have listed : account.attributes = attributes := by
      rw [Account.attributes, current]
    exact ⟨path, listed ▸ current, listed ▸ described⟩
  · intro mode given
    have owned := recounted.owned_of_mode inside given
    refine ⟨owned, ?_⟩
    intro more later unclosed insideLater
    obtain ⟨found, same, ownedLater⟩ :=
      owner_stays_of_accepted (accepted_of_inside insideLater) unclosed inside owned
    obtain rfl := Option.some.inj (insideLater.symm.trans same)
    exact ownedLater
  · rw [State.openBlocks_of_inside inside] at opened
    exact opened
  · exact closed.trans (Nat.zero_add _)

/-- A block behind another one has been given as many harts as it may have, a privilege mode, a cold
reboot and an ancillary file, and waits for the value of one more attribute. -/
theorem open_block_of_feed_second :
    let kinds : List Kind :=
      [.streamStart, .documentStart, .mappingStart, .scalar "payloads", .mappingStart,
        .scalar "a", .mappingStart, .scalar "owner-hart", .scalar "u54_1", .mappingEnd,
        .scalar "b", .mappingStart, .scalar "owner-hart", .scalar "u54_1",
        .scalar "secondary-hart", .scalar "u54_2", .scalar "secondary-hart", .scalar "u54_3",
        .scalar "secondary-hart", .scalar "u54_4", .scalar "priv-mode", .scalar "prv_s",
        .scalar "allow-reboot", .scalar "cold", .scalar "ancilliary-data", .scalar "c",
        .scalar "skip-opensbi"]
    let events := Yaml.Event.ofKinds kinds
    let sink := PayloadSink.answering fun _ => true
    let machine := feed sink .whole (start ()) events
    let log := (start ()).log sink .whole events
    let block : Block :=
      { path := "b", owner := some .u54_1, secondaries := [.u54_2, .u54_3, .u54_4]
        privilege := .supervisor
        entitlements := { ancillaryData := true, allowWarmReboot := true, allowColdReboot := true }
        ancillary := some "c" }
    machine.state.block? = some block ∧ block.Sound ∧ log.countP Saying.opens = 2 ∧
      machine.draft.closed = 1 ∧
      ∀ more later, .close ∉ machine.log sink .whole more →
        (feed sink .whole machine more).state.block? = some later → later.owner.isSome := by
  intro kinds events sink machine log block
  have inside : machine.state.block? = some block := by decide +kernel
  have closed : log.count .close = 1 := by decide +kernel
  have given : .privMode .supervisor ∈ (Account.of log).attributes := by decide +kernel
  obtain ⟨sound, -, -, modes, opened, counted⟩ :=
    open_block_of_feed sink .whole events () block inside
  rw [closed] at opened counted
  refine ⟨inside, sound, opened, ?_, (modes .supervisor given).2⟩
  -- The machine is not to be run here, so its name is replaced by what it stands for.
  dsimp only [machine]
  exact counted

end Machine

end HartBoot.Config
