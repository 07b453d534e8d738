import HartBoot.Compilation
import HartBoot.Proofs.Blob
import HartBoot.Proofs.Config.Requests
import HartBoot.Proofs.Config.Tracking
import HartBoot.Proofs.Elf.Extraction

/-!
Contract: what a configuration puts into memory.

Owns:
- `Contributes`, the entries that one payload block adds: the loaded sections of an executable, or
  a file as it is and its ancillary file behind it;
- `joined_of_plan`, which says that the plan of a configuration is made of what its blocks add, in
  their order;
- `performs_of_contributes` and `succeeds_plan_of_performed`, which lead from what the files of some
  blocks contribute to a plan that is made;
- what becomes of ancillary files: they are loaded for files that are no executables, and for no
  others.

Does not own: the sections that are loaded (see `HartBoot.Proofs.Elf.Extraction`), nor where an
ancillary file goes (see `HartBoot.Proofs.Blob`).
-/

namespace HartBoot.Config

open Elf (Program ProvidesAll chunksOf zeroedOf)

/-! ## One block -/

/-- The entries that a payload block adds for its owner. -/
inductive Contributes (files : Files) (block : Block) (owner : Hart) : LoadPlan → Prop where
  | executable {bytes : Bytes} {program : Program} :
    files.read block.path = .ok bytes → Elf.Opens bytes program →
    ProvidesAll bytes program.loaded →
    Contributes files block owner
      ⟨chunksOf bytes owner program.loaded, zeroedOf owner program.loaded⟩
  | alone {data : Bytes} :
    files.read block.path = .ok data → Elf.hasMagic data = false → data ≠ [] →
    block.ancillary = none →
    Contributes files block owner ⟨[⟨owner, block.address, data⟩], []⟩
  | accompanied {data content : Bytes} {companion : Path} {target : UInt64} :
    files.read block.path = .ok data → Elf.hasMagic data = false → data ≠ [] →
    block.ancillary = some companion → files.read companion = .ok content → content ≠ [] →
    Blob.addressAfter? block.address data.length = some target →
    Contributes files block owner
      ⟨[⟨owner, block.address, data⟩, ⟨owner, target, content⟩], []⟩

section Block

variable {files : Files} {wide : Bool} {block : Block} {owner : Hart} {before after : LoadPlan}

/-- The payload of a block is taken when it has something to add, and just that is added. -/
theorem takes_iff_contributes :
    (LoadPlan.sink files wide).Takes block.path owner block.address block.ancillary before after ↔
      ∃ added, Contributes files block owner added ∧ before.followedBy added = after := by
  unfold PayloadSink.Takes LoadPlan.sink
  simp only [Elf.succeeds_extract_true, Elf.succeeds_extract_false]
  constructor
  · intro taken
    rcases taken with ⟨bytes, program, found, opens, provided, rfl⟩ | ⟨_, ⟨plain, rfl⟩, embedded⟩
    · exact ⟨_, .executable found opens provided, rfl⟩
    · obtain ⟨bytes, found, plain⟩ := plain
      cases companion : block.ancillary with
      | none =>
        rw [companion, Blob.succeeds_embed_none] at embedded
        obtain ⟨data, again, filled, rfl⟩ := embedded
        obtain rfl := Except.ok.inj (found.symm.trans again)
        exact ⟨_, .alone found plain filled companion, rfl⟩
      | some companionPath =>
        rw [companion, Blob.succeeds_embed_some] at embedded
        obtain ⟨data, content, target, again, filled, present, sized, placed, rfl⟩ := embedded
        obtain rfl := Except.ok.inj (found.symm.trans again)
        exact ⟨_, .accompanied found plain filled companion present sized placed, rfl⟩
  · intro contributed
    rcases contributed with ⟨added, contributes, rfl⟩
    cases contributes with
    | executable found opens provided =>
      exact .inl ⟨_, _, found, opens, provided, rfl⟩
    | alone found plain filled companion =>
      refine .inr ⟨before, ⟨⟨_, found, plain⟩, rfl⟩, ?_⟩
      rw [companion, Blob.succeeds_embed_none]
      exact ⟨_, found, filled, rfl⟩
    | accompanied found plain filled companion present sized placed =>
      refine .inr ⟨before, ⟨⟨_, found, plain⟩, rfl⟩, ?_⟩
      rw [companion, Blob.succeeds_embed_some]
      exact ⟨_, _, _, found, filled, present, sized, placed, rfl⟩

end Block

/-! ## All blocks -/

/-- A block has an owner, and adds some entries for it. -/
def Supplies (files : Files) (block : Block) (added : LoadPlan) : Prop :=
  ∃ owner, block.owner = some owner ∧ Contributes files block owner added

/-- The entries of some plans, one behind the other. -/
def joined (parts : List LoadPlan) : LoadPlan :=
  parts.foldr LoadPlan.followedBy LoadPlan.empty

theorem chunks_joined (parts : List LoadPlan) :
    (joined parts).chunks = parts.flatMap LoadPlan.chunks := by
  induction parts with
  | nil => rfl
  | cons part rest inductionHypothesis =>
    rw [List.flatMap_cons, ← inductionHypothesis]
    rfl

section Blocks

variable {files : Files} {wide : Bool} {before after : LoadPlan}

theorem delivers_iff {block : Block} :
    Delivers (LoadPlan.sink files wide) block before after ↔
      ∃ added, Supplies files block added ∧ before.followedBy added = after := by
  unfold Delivers Supplies
  simp only [takes_iff_contributes]
  constructor
  · rintro ⟨owner, owned, added, contributes, same⟩
    exact ⟨added, ⟨owner, owned, contributes⟩, same⟩
  · rintro ⟨added, ⟨owner, owned, contributes⟩, same⟩
    exact ⟨owner, owned, added, contributes, same⟩

theorem trace_delivers_iff {blocks : List Block} :
    Trace (Delivers (LoadPlan.sink files wide)) blocks before after ↔
      ∃ parts, List.Forall₂ (Supplies files) blocks parts ∧
        before.followedBy (joined parts) = after := by
  induction blocks generalizing before with
  | nil =>
    rw [Trace.nil_iff]
    constructor
    · rintro rfl
      exact ⟨[], .nil, LoadPlan.followedBy_empty before⟩
    · rintro ⟨parts, supplied, same⟩
      cases supplied
      exact (LoadPlan.followedBy_empty before).symm.trans same
  | cons block rest inductionHypothesis =>
    simp only [Trace.cons_iff, delivers_iff, inductionHypothesis]
    constructor
    · rintro ⟨_, ⟨added, first, rfl⟩, parts, others, rfl⟩
      exact ⟨added :: parts, .cons first others, (LoadPlan.followedBy_assoc _ _ _).symm⟩
    · rintro ⟨parts, supplied, rfl⟩
      cases supplied with
      | cons first others =>
        exact ⟨_, ⟨_, first, rfl⟩, _, others, LoadPlan.followedBy_assoc _ _ _⟩

end Blocks

/-! ## The plan of a configuration -/

section Plan

variable {files : Files} {options : Compilation.Options} {text : String} {image : Image}
  {loads : LoadPlan}

/-- The plan of a configuration is made of what its blocks add, in the order in which they are
closed. -/
theorem joined_of_plan
    (planned : (Compilation.plan files options text).Succeeds LoadPlan.empty image loads) :
    (∃ configuration : Configuration,
        configuration.Spells options.matching
          ((Yaml.read text).events.map fun event => event.kind)) ∧
      ∀ configuration : Configuration,
        configuration.Spells options.matching
            ((Yaml.read text).events.map fun event => event.kind) →
          ∃ parts, List.Forall₂ (Supplies files) (configuration.items.flatMap Item.described) parts ∧
            joined parts = loads := by
  obtain ⟨-, draft, trace, -, stored⟩ := succeeds_readReading_iff_trace.mp planned
  constructor
  · obtain ⟨configuration, spelled, -⟩ := trace_iff_spells.mp trace
    exact ⟨configuration, spelled⟩
  · intro configuration spelled
    obtain ⟨reached, performed, same⟩ := performed_of_spells _ _ spelled trace
    obtain rfl : draft = reached := congrArg Machine.draft same
    have delivered := (exists_trace_iff_valid.mp ⟨draft, performed, stored⟩).2
    rw [← flatMap_described, trace_delivers_iff] at delivered
    obtain ⟨parts, supplied, total⟩ := delivered
    exact ⟨parts, supplied, total⟩

/-- Whatever a block adds, the plan holds. -/
theorem mem_chunks_of_supplied
    {blocks : List Block}
    {parts : List LoadPlan}
    (supplied : List.Forall₂ (Supplies files) blocks parts)
    {block : Block}
    (member : block ∈ blocks) :
    ∃ added, Supplies files block added ∧ ∀ chunk ∈ added.chunks, chunk ∈ (joined parts).chunks := by
  rw [chunks_joined]
  induction supplied with
  | nil => exact absurd member List.not_mem_nil
  | cons first _ inductionHypothesis =>
    rw [List.flatMap_cons]
    rcases List.mem_cons.mp member with rfl | behind
    · exact ⟨_, first, fun chunk inside => List.mem_append_left _ inside⟩
    · obtain ⟨added, supplies, included⟩ := inductionHypothesis behind
      exact ⟨added, supplies, fun chunk inside => List.mem_append_right _ (included chunk inside)⟩

end Plan

/-- In an accepted configuration, every block that names an ancillary file and whose payload is no
executable has the contents of the file that it named last loaded for its owner, at the first
aligned address behind the payload. -/
theorem ancillary_loaded_of_plan
    (files : Files)
    (options : Compilation.Options)
    (text : String)
    (image : Image)
    (loads : LoadPlan)
    (planned : (Compilation.plan files options text).Succeeds LoadPlan.empty image loads) :
    (∃ configuration : Configuration,
        configuration.Spells options.matching
          ((Yaml.read text).events.map fun event => event.kind)) ∧
      ∀ configuration : Configuration,
        configuration.Spells options.matching
            ((Yaml.read text).events.map fun event => event.kind) →
          ∀ block ∈ configuration.items.flatMap Item.described,
            ∀ companion, block.ancillary = some companion →
              ∃ owner data, block.owner = some owner ∧ files.read block.path = .ok data ∧
                (Elf.hasMagic data = false →
                  ∃ content target, files.read companion = .ok content ∧
                    Blob.addressAfter? block.address data.length = some target ∧
                    ⟨owner, target, content⟩ ∈ loads.chunks) := by
  obtain ⟨written, contents⟩ := joined_of_plan planned
  refine ⟨written, ?_⟩
  intro configuration spelled block member companion named
  obtain ⟨parts, supplied, rfl⟩ := contents configuration spelled
  obtain ⟨added, ⟨owner, owned, contributes⟩, included⟩ := mem_chunks_of_supplied supplied member
  cases contributes with
  | executable found opens provided =>
    refine ⟨owner, _, owned, found, ?_⟩
    intro plain
    rw [opens.magic] at plain
    cases plain
  | alone found plain filled none =>
    rw [none] at named
    cases named
  | accompanied found plain filled other present sized placed =>
    obtain rfl := Option.some.inj (other.symm.trans named)
    refine ⟨owner, _, owned, found, ?_⟩
    intro _
    exact ⟨_, _, present, placed, included _ (by simp)⟩

/-! ## Blocks without a mode -/

/-- A block that gives no mode needs an owner, and not too many other harts. -/
theorem complete_of_modeless
    {attributes : List Attribute}
    (owner : Hart)
    (owned : .ownerHart owner ∈ attributes)
    (few : (attributes.filterMap Attribute.secondary?).length ≤ maxSecondaries)
    (modeless : ∀ mode, .privMode mode ∉ attributes) :
    Complete attributes := by
  refine ⟨⟨owner, owned⟩, few, ?_⟩
  rintro front _ back split mode rfl
  exact absurd (split ▸ List.mem_append_right front List.mem_cons_self) (modeless mode)

/-- Such a block adds just what it contributes, whatever has been read before it. -/
theorem performs_of_contributes
    {files : Files}
    (wide : Bool)
    {path : Path}
    {attributes : List Attribute}
    (complete : Complete attributes)
    (modeless : Block.assignmentsOf { path := path } attributes = [])
    {owner : Hart}
    (owned : (Block.of path attributes).owner = some owner)
    {added : LoadPlan}
    (contributes : Contributes files (Block.of path attributes) owner added)
    (before : Draft LoadPlan) :
    Performs (LoadPlan.sink files wide) (.payload path attributes) before
      (before.closeWith (Block.of path attributes) owner (before.store.followedBy added)) := by
  have taken : (LoadPlan.sink files wide).Takes (Block.of path attributes).path owner
      (Block.of path attributes).address (Block.of path attributes).ancillary before.store
      (before.store.followedBy added) :=
    takes_iff_contributes.mpr ⟨added, contributes, rfl⟩
  refine performs_payload_iff.mpr ⟨complete, ?_, owner, _, owned, taken, ?_⟩
  · rw [modeless]
    exact History.holds_nil
  · rw [modeless]
    rfl

/-- A text has the plan and the image that its items lead to. -/
theorem succeeds_plan_of_performed
    (files : Files)
    (options : Compilation.Options)
    (text : String)
    (faultless : (Yaml.read text).fault = none)
    {configuration : Configuration}
    (spelled : configuration.Spells options.matching
      ((Yaml.read text).events.map fun event => event.kind))
    {draft : Draft LoadPlan}
    (performed : Trace (Performs (LoadPlan.sink files options.wide)) configuration.items
      (Draft.initial LoadPlan.empty) draft) :
    (Compilation.plan files options text).Succeeds LoadPlan.empty draft.image draft.store := by
  have trace := trace_of_spells _ _ spelled performed
  exact succeeds_readReading_iff_trace.mpr ⟨faultless, draft, trace, rfl, rfl⟩

/-! ## One block with an ancillary file -/

/-- A configuration with one payload block, which names an ancillary file. -/
def companionText : String :=
  "payloads: \x7ba: \x7bowner-hart: u54_1, ancilliary-data: d\x7d\x7d"

def companionAttributes : List Attribute :=
  [.ownerHart .u54_1, .ancillaryData "d"]

def companionConfiguration : Configuration :=
  [[[.payloads [.opening, .entry ⟨"a", .opening :: companionAttributes.map .entry⟩]]]]

theorem companionPayload_spells :
    Payload.Spells .whole ⟨"a", .opening :: companionAttributes.map .entry⟩
      [.scalar "a", .mappingStart, .scalar "owner-hart", .scalar "u54_1",
        .scalar "ancilliary-data", .scalar "d", .mappingEnd] :=
  ⟨_, .cons rfl (.cons ⟨_, _, by decide, rfl⟩ (.cons ⟨_, _, by decide, rfl⟩ .nil)), rfl⟩

theorem companionConfiguration_spells :
    companionConfiguration.Spells .whole
      ((Yaml.read companionText).events.map fun event => event.kind) := by
  have kinds : ((Yaml.read companionText).events.map fun event => event.kind) =
      [.streamStart, .documentStart, .mappingStart, .scalar "payloads", .mappingStart,
        .scalar "a", .mappingStart, .scalar "owner-hart", .scalar "u54_1",
        .scalar "ancilliary-data", .scalar "d", .mappingEnd, .mappingEnd, .mappingEnd,
        .documentEnd, .streamEnd] := by
    decide +kernel
  have listed : Section.Spells .whole (.payloads [.opening, .entry _]) _ :=
    ⟨"payloads", by decide, _, .cons rfl (.cons companionPayload_spells .nil), rfl⟩
  rw [kinds]
  exact ⟨_, .cons ⟨_, .cons ⟨_, .cons listed .nil, rfl⟩ .nil, rfl⟩ .nil, rfl⟩

theorem read_companionFiles (payload content : Bytes) :
    let files : Files := ⟨[(["a"], .file payload), (["d"], .file content)]⟩
    files.read "a" = .ok payload ∧ files.read "d" = .ok content :=
  ⟨by cbv, by cbv⟩

/-- The configuration puts into memory what its block adds, and says that there is an ancillary
file, whatever the payload is. -/
theorem plan_companion
    {files : Files}
    {loads : LoadPlan}
    (contributes : Contributes files (Block.of "a" companionAttributes) .u54_1 loads) :
    ∃ image,
      (Compilation.plan files {} companionText).Succeeds LoadPlan.empty image loads ∧
        (image.settings .u54_1).flags.ancillaryData := by
  have complete : Complete companionAttributes :=
    complete_of_modeless .u54_1 (by decide) (by decide) (by simp [companionAttributes])
  have performed := performs_of_contributes false complete rfl rfl contributes
    (Draft.initial LoadPlan.empty)
  have faultless : (Yaml.read companionText).fault = none := by decide +kernel
  have planned := succeeds_plan_of_performed files {} companionText faultless
    companionConfiguration_spells (Trace.singleton_iff.mpr performed)
  refine ⟨_, planned, ?_⟩
  rw [Draft.settings_closeWith]
  rfl

/-- Behind three bytes of payload, three bytes of ancillary data are loaded at the address eight. -/
theorem ancillary_loaded_of_plan_companion :
    let files : Files := ⟨[(["a"], .file [0x11, 0x22, 0x33]), (["d"], .file [1, 2, 3])]⟩
    let loads : LoadPlan := ⟨[⟨.u54_1, 0, [0x11, 0x22, 0x33]⟩, ⟨.u54_1, 8, [1, 2, 3]⟩], []⟩
    ∃ image,
      (Compilation.plan files {} companionText).Succeeds LoadPlan.empty image loads ∧
        companionConfiguration.Spells .whole
          ((Yaml.read companionText).events.map fun event => event.kind) ∧
        ∃ block ∈ companionConfiguration.items.flatMap Item.described,
          block.ancillary = some "d" ∧
            ∃ owner data, block.owner = some owner ∧ files.read block.path = .ok data ∧
              (Elf.hasMagic data = false →
                ∃ content target, files.read "d" = .ok content ∧
                  Blob.addressAfter? block.address data.length = some target ∧
                  ⟨owner, target, content⟩ ∈ loads.chunks) := by
  intro files loads
  obtain ⟨payload, companion⟩ := read_companionFiles [0x11, 0x22, 0x33] [1, 2, 3]
  obtain ⟨image, planned, -⟩ := plan_companion
    (.accompanied payload (by decide) (by decide) rfl companion (by decide) (by decide) :
      Contributes files (Block.of "a" companionAttributes) .u54_1 loads)
  have member : Block.of "a" companionAttributes ∈
      companionConfiguration.items.flatMap Item.described := by decide
  exact ⟨image, planned, companionConfiguration_spells, _, member, rfl,
    (ancillary_loaded_of_plan files {} companionText image loads planned).2
      companionConfiguration companionConfiguration_spells _ member "d" rfl⟩

/-- The ancillary file of an executable is not loaded, although the flag of its hart says that there
is one. -/
theorem ancillary_ignored_with_executable :
    let files : Files := ⟨[(["a"], .file Elf.smallExecutable), (["d"], .file [1, 2, 3])]⟩
    let loads : LoadPlan :=
      ⟨[⟨.u54_1, 0x80000000, List.replicate 16 0xAA⟩], [⟨.u54_1, 0x80000010, 32⟩]⟩
    ∃ image,
      (Compilation.plan files {} companionText).Succeeds LoadPlan.empty image loads ∧
        (image.settings .u54_1).flags.ancillaryData ∧
        companionConfiguration.Spells .whole
          ((Yaml.read companionText).events.map fun event => event.kind) ∧
        ∃ block ∈ companionConfiguration.items.flatMap Item.described,
          block.owner = some .u54_1 ∧ block.ancillary = some "d" ∧
            files.read "d" = .ok [1, 2, 3] ∧ ∀ chunk ∈ loads.chunks, chunk.data ≠ [1, 2, 3] := by
  intro files loads
  obtain ⟨payload, companion⟩ := read_companionFiles Elf.smallExecutable [1, 2, 3]
  have loaded : (⟨Elf.chunksOf Elf.smallExecutable .u54_1 Elf.smallProgram.loaded,
      Elf.zeroedOf .u54_1 Elf.smallProgram.loaded⟩ : LoadPlan) = loads := by decide +kernel
  obtain ⟨image, planned, flagged⟩ := plan_companion
    (loaded ▸ .executable payload Elf.opens_small Elf.providesAll_small :
      Contributes files (Block.of "a" companionAttributes) .u54_1 loads)
  exact ⟨image, planned, flagged, companionConfiguration_spells, Block.of "a" companionAttributes,
    by decide, rfl, rfl, companion, by decide⟩

end HartBoot.Config
