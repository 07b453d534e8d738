import HartBoot.Proofs.Config.Feed
import HartBoot.Proofs.Config.Summary
import HartBoot.Proofs.Config.Tracking
import HartBoot.Proofs.Config.Validity

/-!
Contract: the settings of a hart that a configuration describes.

Owns:
- `flagsFrom`, `hartNameFrom` and `Item.entryFor?`, the flags, the name and the entry points that
  the blocks and items of a configuration give to a hart;
- `Draft.Warm`, which says that no hart may be rebooted cold but not warm, and which no event
  breaks;
- the law of the settings.

The privilege mode follows a law of its own, also for runs that are not finished (see
`HartBoot.Proofs.Config.Mode`).
-/

namespace HartBoot.Config

variable {σ : Type}

/-- Whether a hart runs the payload of a block, as its owner or together with it. -/
def Block.concerns (block : Block) (hart : Hart) : Bool :=
  block.owner = some hart ∨ hart ∈ block.secondaries

/-- The flags of a hart: those of the last block that concerns it. -/
def flagsFrom (blocks : List Block) (hart : Hart) : BootFlags :=
  match (blocks.filter fun block => block.concerns hart).getLast? with
  | some block => block.entitlements.flags
  | none => BootFlags.empty

/-- The name of a hart: the names of the blocks that it owns, joined in their order. -/
def hartNameFrom (blocks : List Block) (hart : Hart) : Name :=
  (blocks.filter fun block => block.owner = some hart).foldl
    (fun name block => (name.join block.displayName).name) Name.empty

/-- The entry point that an item gives to a hart. -/
def Item.entryFor? (hart : Hart) : Item → Option UInt64
  | .entryPoint point => if point.hart = hart then some point.address else none
  | _ => none

/-- The settings of a hart are those that some items describe. -/
structure SettingsFrom (items : List Item) (hart : Hart) (settings : HartSettings) : Prop where
  flags : settings.flags = flagsFrom (items.flatMap Item.described) hart
  name : settings.name = hartNameFrom (items.flatMap Item.described) hart
  entry : ∀ address,
    settings.entry = some address ↔ items.filterMap (Item.entryFor? hart) = [address]
  noEntry : settings.entry = none ↔ items.filterMap (Item.entryFor? hart) = []

/-! ## Blocks and items -/

section Append

variable (blocks : List Block) (block : Block) (hart : Hart)

theorem flagsFrom_append_singleton :
    flagsFrom (blocks ++ [block]) hart =
      if block.concerns hart then block.entitlements.flags else flagsFrom blocks hart := by
  unfold flagsFrom
  by_cases concerned : block.concerns hart
  · rw [if_pos concerned, List.filter_append, List.filter_singleton, concerned]
    simp
  · rw [if_neg concerned, List.filter_append, List.filter_singleton,
      Bool.eq_false_iff.mpr concerned]
    simp

theorem hartNameFrom_append_singleton :
    hartNameFrom (blocks ++ [block]) hart =
      if block.owner = some hart then ((hartNameFrom blocks hart).join block.displayName).name
      else hartNameFrom blocks hart := by
  unfold hartNameFrom
  by_cases owned : block.owner = some hart
  · simp [owned]
  · simp [owned]

end Append

/-! ## Drafts -/

/-- What items have gathered for a hart so far. That they give no second entry point is a part of
it: an item that did could not be performed. -/
structure Draft.Gathered (draft : Draft σ) (items : List Item) (hart : Hart) : Prop where
  flags : (draft.image.settings hart).flags = flagsFrom (items.flatMap Item.described) hart
  name : (draft.image.settings hart).name = hartNameFrom (items.flatMap Item.described) hart
  entries : items.filterMap (Item.entryFor? hart) = (draft.image.settings hart).entry.toList

section Gathered

variable {sink : PayloadSink σ} {items : List Item} {item : Item} {before after : Draft σ}
  {hart : Hart}

theorem filterMap_entryFor?_append_singleton :
    (items ++ [item]).filterMap (Item.entryFor? hart) =
      items.filterMap (Item.entryFor? hart) ++ (item.entryFor? hart).toList := by
  rw [List.filterMap_append]
  cases found : item.entryFor? hart with
  | none => simp [found]
  | some address => simp [found]

/-- An item that closes no block can only give an entry point. -/
theorem Draft.Gathered.of_no_block
    (gathered : before.Gathered items hart)
    (closes : item.described = [])
    (flags : (after.image.settings hart).flags = (before.image.settings hart).flags)
    (name : (after.image.settings hart).name = (before.image.settings hart).name)
    (entry : (after.image.settings hart).entry.toList =
      (before.image.settings hart).entry.toList ++ (item.entryFor? hart).toList) :
    after.Gathered (items ++ [item]) hart := by
  have blocks : (items ++ [item]).flatMap Item.described = items.flatMap Item.described := by
    rw [List.flatMap_append, List.flatMap_singleton, closes, List.append_nil]
  refine ⟨?_, ?_, ?_⟩
  · rw [flags, gathered.flags, blocks]
  · rw [name, gathered.name, blocks]
  · rw [entry, filterMap_entryFor?_append_singleton, gathered.entries]

theorem Draft.Gathered.of_block
    (gathered : before.Gathered items hart)
    {path : Path}
    {attributes : List Attribute}
    (performed : Performs sink (.payload path attributes) before after) :
    after.Gathered (items ++ [.payload path attributes]) hart := by
  obtain ⟨-, -, owner, store, owned, -, rfl⟩ := performs_payload_iff.mp performed
  rw [Block.of_eq_describedBy] at owned ⊢
  have blocks : (items ++ [Item.payload path attributes]).flatMap Item.described =
      items.flatMap Item.described ++ [Block.describedBy path attributes] := by
    rw [List.flatMap_append, List.flatMap_singleton]
    rfl
  have concerns : (Block.describedBy path attributes).concerns hart ↔
      hart ∈ owner :: (Block.describedBy path attributes).secondaries := by
    simp [Block.concerns, owned, @eq_comm _ owner]
  have owns : (Block.describedBy path attributes).owner = some hart ↔ hart = owner := by
    rw [owned, Option.some.injEq, eq_comm]
  refine ⟨?_, ?_, ?_⟩
  · rw [blocks, flagsFrom_append_singleton, settings_closeWith, settings_assignAll,
      ← gathered.flags]
    simp only [concerns]
  · rw [blocks, hartNameFrom_append_singleton, settings_closeWith, settings_assignAll,
      ← gathered.name]
    simp only [owns]
  · rw [filterMap_entryFor?_append_singleton, settings_closeWith, settings_assignAll,
      gathered.entries]
    exact List.append_nil _

theorem Draft.Gathered.performs
    (gathered : before.Gathered items hart)
    (performed : Performs sink item before after) :
    after.Gathered (items ++ [item]) hart := by
  cases item with
  | setName text =>
    obtain rfl := performed
    exact gathered.of_no_block rfl rfl rfl (List.append_nil _).symm
  | entryPoint point =>
    obtain ⟨free, rfl⟩ := performed
    by_cases same : hart = point.hart
    · subst same
      apply gathered.of_no_block rfl
      · rw [settings_withEntry, if_pos rfl]
      · rw [settings_withEntry, if_pos rfl]
      · rw [settings_withEntry, if_pos rfl, free]
        simp [Item.entryFor?]
    · have other : (Item.entryPoint point).entryFor? hart = none := if_neg (Ne.symm same)
      apply gathered.of_no_block rfl
      · rw [settings_withEntry, if_neg same]
      · rw [settings_withEntry, if_neg same]
      · rw [settings_withEntry, if_neg same, other]
        exact (List.append_nil _).symm
  | payload path attributes => exact gathered.of_block performed

end Gathered

theorem gathered_of_performed
    {sink : PayloadSink σ}
    {items : List Item}
    {store : σ}
    {draft : Draft σ}
    (performed : Trace (Performs sink) items (Draft.initial store) draft)
    (hart : Hart) :
    draft.Gathered items hart := by
  have start : (Draft.initial store).Gathered [] hart := by
    cases hart <;> exact ⟨rfl, rfl, rfl⟩
  apply performed.carries (fun items draft => draft.Gathered items hart) ?_ start
  exact fun front item before after step gathered => gathered.performs step

theorem Draft.Gathered.settingsFrom
    {draft : Draft σ}
    {items : List Item}
    {hart : Hart}
    (gathered : draft.Gathered items hart) :
    SettingsFrom items hart (draft.image.settings hart) := by
  refine ⟨gathered.flags, gathered.name, ?_, ?_⟩
  · intro address
    rw [gathered.entries]
    cases (draft.image.settings hart).entry <;> simp
  · rw [gathered.entries]
    cases (draft.image.settings hart).entry <;> simp

/-! ## Reboots -/

/-- No hart may be rebooted cold but not warm. -/
def Draft.Warm (draft : Draft σ) : Prop :=
  ∀ hart, (draft.image.settings hart).flags.allowColdReboot →
    (draft.image.settings hart).flags.allowWarmReboot

open HartBoot.Action (Frame Respects)

theorem Draft.warm_initial (store : σ) : (Draft.initial store).Warm := by
  intro hart cold
  cases hart <;> cases cold

theorem Draft.Warm.of_committed
    {before after : Draft σ}
    (warm : before.Warm)
    (same : before.committed = after.committed) :
    after.Warm := by
  intro hart
  have flags : (before.image.settings hart).flags = (after.image.settings hart).flags :=
    congrArg Prod.snd (congrFun (congrArg (fun part => part.2.2) same) hart)
  rw [← flags]
  exact warm hart

theorem Draft.Warm.assignFlags
    {draft : Draft σ}
    (warm : draft.Warm)
    (granted : Entitlements)
    (harts : List Hart) :
    Draft.Warm { draft with image := draft.image.assignFlags granted.flags harts } := by
  intro hart cold
  change ((draft.image.assignFlags granted.flags harts).settings hart).flags.allowColdReboot at cold
  change ((draft.image.assignFlags granted.flags harts).settings hart).flags.allowWarmReboot
  rw [Draft.settings_assignFlags] at cold ⊢
  by_cases concerned : hart ∈ harts
  · rw [if_pos concerned] at cold ⊢
    exact Bool.or_eq_true_iff.mpr (.inr cold)
  · rw [if_neg concerned] at cold ⊢
    exact warm hart cold

/-- Nothing that happens while a block is closed breaks the rule. -/
theorem close_respects_warm (sink : PayloadSink σ) (block : Block) :
    (Draft.close sink block).Respects (Frame.keeping Draft.Warm) := by
  unfold Draft.close
  apply Respects.andThen
  · intro draft warm
    have composed : ((Draft.nameSetAfter block).run draft).state = draft.composeName block :=
      (Draft.succeeds_nameSetAfter.mpr rfl : (Draft.nameSetAfter block).Succeeds draft () _).2
    rw [composed]
    exact warm
  intro _
  cases block.owner with
  | none => exact Respects.fail
  | some owner =>
    apply Respects.andThen
    · intro draft warm
      have named :=
        (Draft.succeeds_takeHartName.mpr rfl :
          (Draft.takeHartName owner fun name => name.join block.displayName).Succeeds draft () _).2
      rw [named]
      intro hart
      by_cases same : hart = owner
      · subst same
        simpa using warm hart
      · simpa [same] using warm hart
    intro _
    have submitted : (Draft.submit sink block owner).Respects (Frame.keeping Draft.Warm) :=
      fun _ warm => warm
    apply submitted.andThen
    intro _
    apply Respects.andThen (Respects.change fun _ warm => warm.assignFlags _ _)
    intro _
    apply Respects.andThen (Respects.change fun _ warm => warm)
    exact fun _ => Respects.andThen Respects.look fun _ => Respects.say

/-- Whatever a machine is fed, it allows no hart a cold reboot without a warm one. -/
theorem warm_feed
    {sink : PayloadSink σ}
    {matching : Matching}
    {machine : Machine σ}
    (warm : machine.draft.Warm)
    (events : List Yaml.Event) :
    (Machine.feed sink matching machine events).draft.Warm := by
  induction events generalizing machine with
  | nil => exact warm
  | cons event rest inductionHypothesis =>
    apply inductionHypothesis
    have kept : (Machine.advance sink matching machine.state event).Respects
        (Frame.keeping Draft.Warm) := by
      by_cases closing : ∃ block, machine.state = .block block ∧ event.kind = .mappingEnd
      · rcases closing with ⟨block, inside, ends⟩
        rcases event with ⟨kind, line, column⟩
        obtain rfl : kind = .mappingEnd := ends
        rw [inside]
        exact (close_respects_warm sink block).andThen fun _ => Respects.pure
      · have running : ∀ block, machine.state = .block block → event.kind ≠ .mappingEnd :=
          fun block inside ends => closing ⟨block, inside, ends⟩
        apply (Machine.advance_fixes_committed running).widen
        exact fun _ _ same reached => reached.of_committed same
    rw [Machine.draft_step]
    exact kept machine.draft warm

/-! ## The law of the settings -/

/-- In an accepted configuration, the flags of a hart are those of the last block that concerns
it, its name is joined from the names of the blocks that it owns, and it has an entry point exactly
if the configuration gives it one, and then only that one. Whatever has been read so far, and even
if it was rejected, no hart may be rebooted cold but not warm. -/
theorem settings_of_configuration (sink : PayloadSink σ) (matching : Matching) :
    (∀ events store final image,
      (readEvents sink matching events).Succeeds store image final →
        (∃ configuration : Configuration,
            configuration.Spells matching (events.map fun event => event.kind)) ∧
          ∀ configuration : Configuration,
            configuration.Spells matching (events.map fun event => event.kind) →
              ∀ hart, SettingsFrom configuration.items hart (image.settings hart)) ∧
      ∀ events store hart,
        let reached := Machine.feed sink matching (Machine.start store) events
        (reached.draft.image.settings hart).flags.allowColdReboot →
          (reached.draft.image.settings hart).flags.allowWarmReboot := by
  constructor
  · intro events store final image accepted
    obtain ⟨written, performs⟩ := performed_of_accepted accepted
    refine ⟨written, ?_⟩
    intro configuration spelled hart
    obtain ⟨draft, performed, rfl⟩ := performs configuration spelled
    exact (gathered_of_performed performed hart).settingsFrom
  · intro events store hart
    exact warm_feed (Draft.warm_initial store) events hart

/-- A hart shares the first block and owns the second one: its flags and its name are those of the
second. -/
theorem settings_of_configuration_shared :
    let events := (Yaml.read
      ("hart-entry-points: \x7bu54_2: 0x10\x7d\n" ++
        "payloads: \x7ba: \x7bowner-hart: u54_1, secondary-hart: u54_2, allow-reboot: cold\x7d, " ++
        "b: \x7bowner-hart: u54_2, skip-opensbi: 1\x7d\x7d\n")).events
    let sink := PayloadSink.answering fun _ => true
    let image : Image :=
      ⟨Name.ofText "PolarFireSOC-HSS::a+b",
        ⟨{ name := Name.ofText "a", flags := { allowWarmReboot := true, allowColdReboot := true } },
          { entry := some 16, name := Name.ofText "b", flags := { skipOpenSbi := true } }, {}, {}⟩⟩
    let points : Section := .entryPoints [.opening, .entry ⟨.u54_2, 16⟩]
    let payloads : Section := .payloads
      [.opening,
        .entry ⟨"a", [.opening, .entry (.ownerHart .u54_1), .entry (.secondaryHart .u54_2),
          .entry (.allowReboot .cold)]⟩,
        .entry ⟨"b", [.opening, .entry (.ownerHart .u54_2), .entry (.skipOpenSbi true)]⟩]
    let configuration : Configuration := [[[points, payloads]]]
    (readEvents sink .whole events).Succeeds () image () ∧
      configuration.Spells .whole (events.map fun event => event.kind) ∧
      SettingsFrom configuration.items .u54_2 (image.settings .u54_2) := by
  intro events sink image points payloads configuration
  have accepted : (readEvents sink .whole events).Succeeds () image () :=
    ⟨by decide +kernel, by decide +kernel⟩
  have kinds : (events.map fun event => event.kind) =
      [.streamStart, .documentStart, .mappingStart, .scalar "hart-entry-points", .mappingStart,
        .scalar "u54_2", .scalar "0x10", .mappingEnd, .scalar "payloads", .mappingStart,
        .scalar "a", .mappingStart, .scalar "owner-hart", .scalar "u54_1",
        .scalar "secondary-hart", .scalar "u54_2", .scalar "allow-reboot", .scalar "cold",
        .mappingEnd,
        .scalar "b", .mappingStart, .scalar "owner-hart", .scalar "u54_2",
        .scalar "skip-opensbi", .scalar "1", .mappingEnd,
        .mappingEnd, .mappingEnd, .documentEnd, .streamEnd] := by
    decide +kernel
  have entered : points.Spells .whole
      [.scalar "hart-entry-points", .mappingStart, .scalar "u54_2", .scalar "0x10",
        .mappingEnd] :=
    ⟨_, by decide, _, .cons rfl (.cons ⟨_, _, by decide, by decide +kernel, rfl⟩ .nil), rfl⟩
  have first : Payload.Spells .whole
      ⟨"a", [.opening, .entry (.ownerHart .u54_1), .entry (.secondaryHart .u54_2),
        .entry (.allowReboot .cold)]⟩
      [.scalar "a", .mappingStart, .scalar "owner-hart", .scalar "u54_1",
        .scalar "secondary-hart", .scalar "u54_2", .scalar "allow-reboot", .scalar "cold",
        .mappingEnd] :=
    ⟨_, .cons rfl (.cons ⟨_, _, by decide, rfl⟩ (.cons ⟨_, _, by decide, rfl⟩
      (.cons ⟨_, _, by decide, rfl⟩ .nil))), rfl⟩
  have second : Payload.Spells .whole
      ⟨"b", [.opening, .entry (.ownerHart .u54_2), .entry (.skipOpenSbi true)]⟩
      [.scalar "b", .mappingStart, .scalar "owner-hart", .scalar "u54_2",
        .scalar "skip-opensbi", .scalar "1", .mappingEnd] :=
    ⟨_, .cons rfl (.cons ⟨_, _, by decide, rfl⟩ (.cons ⟨_, _, by decide +kernel, rfl⟩ .nil)), rfl⟩
  have spelled : configuration.Spells .whole (events.map fun event => event.kind) := by
    have listed : payloads.Spells .whole _ :=
      ⟨"payloads", by decide, _, .cons rfl (.cons first (.cons second .nil)), rfl⟩
    rw [kinds]
    exact ⟨_, .cons ⟨_, .cons ⟨_, .cons entered (.cons listed .nil), rfl⟩ .nil, rfl⟩ .nil, rfl⟩
  have described := (settings_of_configuration sink .whole).1 events () () image accepted
  exact ⟨accepted, spelled, described.2 configuration spelled .u54_2⟩

end HartBoot.Config
