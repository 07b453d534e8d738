import HartBoot.Proofs.Config.Rearrangement

/-!
Contract: the order in which a payload block gives its attributes.

Owns:
- `Reordered`, lists of attributes that differ only in how attributes of different fields are mixed,
  where the fields that decide about privilege modes count as one;
- `Block.of_eq_of_reordered`, `assignmentsOf_eq_of_reordered` and `Reordered.complete_iff`, which
  say that such lists describe the same block, make the same assignments, and are complete together;
- `alike_of_reordered`, and the law of reordering, which follows since the items come to the same.

Does not own: what happens to sections and documents (see `HartBoot.Proofs.Config.Rearrangement`).
-/

namespace HartBoot.Config

open Yaml.Event (Kind)

variable {β σ : Type}

/-! ## Reordered attributes -/

namespace Attribute

/-- The field that an attribute gives a value to. -/
def field : Attribute → Field
  | .execAddr _ => .execAddr
  | .ownerHart _ => .ownerHart
  | .secondaryHart _ => .secondaryHart
  | .payloadName _ => .payloadName
  | .privMode _ => .privMode
  | .skipOpenSbi _ => .skipOpenSbi
  | .skipAutoboot _ => .skipAutoboot
  | .allowReboot _ => .allowReboot
  | .ancillaryData _ => .ancillaryData

/-- The field of an attribute is the one that its key denotes. -/
theorem field_of_attribute?
    {matching : Matching}
    {field : Field}
    {value : String}
    {given : Attribute}
    (read : field.attribute? matching value = some given) :
    given.field = field := by
  cases field <;> simp only [Field.attribute?, Option.map_eq_some_iff, Option.some.injEq] at read
  case payloadName | ancillaryData => exact read ▸ rfl
  all_goals
    obtain ⟨_, _, rfl⟩ := read
    rfl

/-- Whether an attribute decides about privilege modes: a mode goes to the owner and to the harts
that have been named before it. -/
def decidesModes : Attribute → Bool
  | .ownerHart _ | .secondaryHart _ | .privMode _ => true
  | _ => false

end Attribute

/-- One list of attributes is a permutation of another one that keeps the order of the attributes of
each field, and the order of those that decide about privilege modes. -/
structure Reordered (first second : List Attribute) : Prop where
  perm : first.Perm second
  fields : ∀ field,
    first.filter (fun given => given.field = field) =
      second.filter fun given => given.field = field
  modes : first.filter Attribute.decidesModes = second.filter Attribute.decidesModes

namespace Reordered

variable {first second : List Attribute}

theorem symm (reordered : Reordered first second) : Reordered second first where
  perm := reordered.perm.symm
  fields field := (reordered.fields field).symm
  modes := reordered.modes.symm

/-- What is selected from the attributes of one field is the same in both lists. -/
theorem filterMap_eq
    (reordered : Reordered first second)
    (value? : Attribute → Option β)
    (field : Field)
    (only : ∀ given, given.field = field ∨ value? given = none) :
    first.filterMap value? = second.filterMap value? := by
  have selected : ∀ attributes : List Attribute,
      attributes.filterMap value? =
        (attributes.filter fun given => given.field = field).filterMap value? := by
    intro attributes
    rw [List.filterMap_filter]
    congr 1
    funext given
    rcases only given with same | nothing
    · simp [same]
    · simp [nothing]
  rw [selected first, selected second, reordered.fields field]

theorem lastGiven_eq
    (reordered : Reordered first second)
    (value? : Attribute → Option β)
    (field : Field)
    (only : ∀ given, given.field = field ∨ value? given = none) :
    lastGiven value? first = lastGiven value? second :=
  congrArg List.getLast? (reordered.filterMap_eq value? field only)

theorem secondaries_eq (reordered : Reordered first second) :
    first.filterMap Attribute.secondary? = second.filterMap Attribute.secondary? :=
  reordered.filterMap_eq _ .secondaryHart fun given => by
    cases given <;> simp [Attribute.field, Attribute.secondary?]

end Reordered

/-! ## Blocks -/

section Blocks

variable {first second : List Attribute}

/-- Reordered attributes describe the same block. -/
theorem Block.of_eq_of_reordered (reordered : Reordered first second) (path : Path) :
    Block.of path first = Block.of path second := by
  have title := reordered.lastGiven_eq Attribute.title? .payloadName fun given => by
    cases given <;> simp [Attribute.field]
  have address := reordered.lastGiven_eq Attribute.address? .execAddr fun given => by
    cases given <;> simp [Attribute.field]
  have owner := reordered.lastGiven_eq Attribute.owner? .ownerHart fun given => by
    cases given <;> simp [Attribute.field]
  have mode := reordered.lastGiven_eq Attribute.mode? .privMode fun given => by
    cases given <;> simp [Attribute.field]
  have skipOpenSbi := reordered.lastGiven_eq Attribute.skipOpenSbi? .skipOpenSbi fun given => by
    cases given <;> simp [Attribute.field]
  have skipAutoboot := reordered.lastGiven_eq Attribute.skipAutoboot? .skipAutoboot fun given => by
    cases given <;> simp [Attribute.field]
  have ancillary := reordered.lastGiven_eq Attribute.ancillary? .ancillaryData fun given => by
    cases given <;> simp [Attribute.field]
  rw [Block.of_eq_describedBy, Block.of_eq_describedBy, Block.describedBy, title, address, owner,
    reordered.secondaries_eq, mode, skipOpenSbi, skipAutoboot, ancillary, reordered.perm.any_eq,
    reordered.perm.any_eq, reordered.perm.any_eq]
  rfl

/-- The assignments of a block depend only on the attributes that decide about modes. -/
theorem assignmentsOf_filter
    {block other : Block}
    (owner : block.owner = other.owner)
    (secondaries : block.secondaries = other.secondaries)
    (attributes : List Attribute) :
    block.assignmentsOf attributes =
      other.assignmentsOf (attributes.filter Attribute.decidesModes) := by
  -- The blocks differ once an attribute has been left out, but never in their harts.
  induction attributes generalizing block other with
  | nil => rfl
  | cons given rest inductionHypothesis =>
    by_cases decides : given.decidesModes
    · have assigned : given.assignments block = given.assignments other := by
        cases given <;> simp [Attribute.assignments, Block.assignments, owner, secondaries]
      have owners : (block.take given).owner = (other.take given).owner := by
        cases given <;> simp [Block.take, owner]
      have shared : (block.take given).secondaries = (other.take given).secondaries := by
        rw [secondaries_take, secondaries_take, secondaries]
      rw [List.filter_cons_of_pos decides, Block.assignmentsOf, Block.assignmentsOf, assigned,
        inductionHypothesis owners shared]
    · have silent : given.assignments block = [] ∧ (block.take given).owner = block.owner ∧
          (block.take given).secondaries = block.secondaries := by
        cases given <;> simp_all [Attribute.decidesModes, Attribute.assignments, Block.take]
      obtain ⟨nothing, owners, shared⟩ := silent
      rw [List.filter_cons_of_neg decides, Block.assignmentsOf, nothing, List.nil_append,
        inductionHypothesis (owners.trans owner) (shared.trans secondaries)]

theorem assignmentsOf_eq_of_reordered (reordered : Reordered first second) (block : Block) :
    block.assignmentsOf first = block.assignmentsOf second := by
  rw [assignmentsOf_filter rfl rfl first, assignmentsOf_filter rfl rfl second, reordered.modes]

/-- Whether a mode comes behind an owner depends only on the attributes that decide about modes. -/
theorem ownerFirst_filter (attributes : List Attribute) :
    History.Holds
        (fun front given => ∀ mode, given = .privMode mode → ∃ hart, .ownerHart hart ∈ front)
        attributes ↔
      History.Holds
        (fun front given => ∀ mode, given = .privMode mode → ∃ hart, .ownerHart hart ∈ front)
        (attributes.filter Attribute.decidesModes) := by
  rw [History.holds_filter]
  apply History.holds_congr
  intro front given
  simp only [List.mem_filter, Attribute.decidesModes, and_true]
  constructor
  · exact fun behind _ => behind
  · rintro behind mode rfl
    exact behind rfl mode rfl

theorem Reordered.complete (reordered : Reordered first second) (complete : Complete first) :
    Complete second where
  owned := by
    obtain ⟨hart, member⟩ := complete.owned
    exact ⟨hart, reordered.perm.mem_iff.mp member⟩
  few := reordered.secondaries_eq ▸ complete.few
  ownerFirst := by
    have ownerFirst := (ownerFirst_filter first).mp complete.ownerFirst
    rw [reordered.modes] at ownerFirst
    exact (ownerFirst_filter second).mpr ownerFirst

theorem Reordered.complete_iff (reordered : Reordered first second) :
    Complete first ↔ Complete second :=
  ⟨reordered.complete, reordered.symm.complete⟩

end Blocks

/-! ## Reordered items -/

/-- Items say the same, or they are blocks of one path with reordered attributes. -/
inductive Item.Reordered : Item → Item → Prop where
  | same (item : Item) : Item.Reordered item item
  | payload (path : Path) {first second : List Attribute} :
    Config.Reordered first second →
      Item.Reordered (.payload path first) (.payload path second)

namespace Item.Reordered

variable {item other : Item}

theorem setName?_eq (reordered : item.Reordered other) : item.setName? = other.setName? := by
  cases reordered <;> rfl

theorem entryPoint?_eq (reordered : item.Reordered other) :
    item.entryPoint? = other.entryPoint? := by
  cases reordered <;> rfl

theorem blocks_eq (reordered : item.Reordered other) : item.blocks = other.blocks := by
  cases reordered with
  | same => rfl
  | payload path attributes =>
    exact congrArg List.singleton (Block.of_eq_of_reordered attributes path)

theorem assignments_eq (reordered : item.Reordered other) :
    item.assignments = other.assignments := by
  cases reordered with
  | same => rfl
  | payload path attributes => exact assignmentsOf_eq_of_reordered attributes { path := path }

theorem complete_iff (reordered : item.Reordered other) : item.Complete ↔ other.Complete := by
  cases reordered with
  | same => rfl
  | payload path attributes => exact attributes.complete_iff

end Item.Reordered

section Items

variable {first second : List Item}

theorem flatMap_eq_of_reordered
    (reordered : List.Forall₂ Item.Reordered first second)
    {parts : Item → List β}
    (kept : ∀ {item other}, Item.Reordered item other → parts item = parts other) :
    first.flatMap parts = second.flatMap parts := by
  induction reordered with
  | nil => rfl
  | cons head _ inductionHypothesis =>
    rw [List.flatMap_cons, List.flatMap_cons, kept head, inductionHypothesis]

theorem filterMap_eq_of_reordered
    (reordered : List.Forall₂ Item.Reordered first second)
    {value? : Item → Option β}
    (kept : ∀ {item other}, Item.Reordered item other → value? item = value? other) :
    first.filterMap value? = second.filterMap value? := by
  rw [List.filterMap_eq_flatMap_toList, List.filterMap_eq_flatMap_toList]
  exact flatMap_eq_of_reordered reordered fun head => congrArg Option.toList (kept head)

/-- Items with reordered attributes come to the same. -/
theorem alike_of_reordered (reordered : List.Forall₂ Item.Reordered first second) :
    Alike first second where
  setNames := filterMap_eq_of_reordered reordered Item.Reordered.setName?_eq
  blocks := flatMap_eq_of_reordered reordered Item.Reordered.blocks_eq
  assignments := flatMap_eq_of_reordered reordered Item.Reordered.assignments_eq
  complete := by
    induction reordered with
    | nil => simp only [List.not_mem_nil]
    | cons head _ inductionHypothesis =>
      rw [List.forall_mem_cons, List.forall_mem_cons, head.complete_iff, inductionHypothesis]
  entryPoints := .of_eq (filterMap_eq_of_reordered reordered Item.Reordered.entryPoint?_eq)

end Items

/-! ## The law of reordering -/

/-- The order of the fields of a payload block does not matter, except among fields of one key and
among the fields that decide about privilege modes. If one order is accepted, then so is the other.
They lead to the same image, the same number of closed blocks and the same requests to the
receiver. -/
theorem accepted_iff_of_reordered
    (sink : PayloadSink σ)
    (matching : Matching)
    (events other : List Yaml.Event)
    (first second : Configuration)
    (spelled : first.Spells matching (events.map fun event => event.kind))
    (spelledAgain : second.Spells matching (other.map fun event => event.kind))
    (reordered : List.Forall₂ Item.Reordered first.items second.items)
    (store : σ) :
    (∀ draft,
        (Machine.readAll sink.recorded matching events).Succeeds (Machine.start ([], store)) ()
            ⟨.finished, draft⟩ ↔
          (Machine.readAll sink.recorded matching other).Succeeds (Machine.start ([], store)) ()
            ⟨.finished, draft⟩) ∧
      ∀ image requests final,
        (readEvents sink.recorded matching events).Succeeds ([], store) image (requests, final) ↔
          (readEvents sink.recorded matching other).Succeeds ([], store) image
            (requests, final) := by
  have alike := alike_of_reordered reordered
  constructor
  · intro draft
    exact
      ⟨succeeds_readAll_of_alike spelled spelledAgain alike,
        succeeds_readAll_of_alike spelledAgain spelled alike.symm⟩
  · intro image requests final
    exact
      ⟨succeeds_readEvents_of_alike spelled spelledAgain alike,
        succeeds_readEvents_of_alike spelledAgain spelled alike.symm⟩

/-- Attributes are written down by their keys and values, one after the other. -/
theorem spelled_attributes
    {matching : Matching}
    {fields : List (String × String)}
    {attributes : List Attribute}
    (read : List.Forall₂ (fun field given => Attribute.read? matching field.1 field.2 = some given)
      fields attributes) :
    Spelled (Part.Spells (Attribute.Spells matching)) (attributes.map .entry)
      (fields.flatMap fun field => [.scalar field.1, .scalar field.2]) := by
  induction read with
  | nil => exact .nil
  | cons denoted _ inductionHypothesis => exact .cons ⟨_, _, denoted, rfl⟩ inductionHypothesis

/-- The fields of a block that gives every field are mixed in another way. -/
theorem accepted_iff_of_reordered_everyField :
    let events (fields : List (String × String)) : List Yaml.Event := Yaml.Event.ofKinds <|
      [.streamStart, .documentStart, .mappingStart, .scalar "payloads", .mappingStart,
          .scalar "a", .mappingStart] ++
        (fields.flatMap fun field => [.scalar field.1, .scalar field.2]) ++
        [.mappingEnd, .mappingEnd, .mappingEnd, .documentEnd, .streamEnd]
    let configuration (attributes : List Attribute) : Configuration :=
      [[[.payloads [.opening, .entry ⟨"a", .opening :: attributes.map .entry⟩]]]]
    let fields : List (String × String) :=
      [("exec-addr", "0x10"), ("owner-hart", "u54_1"), ("secondary-hart", "u54_2"),
        ("payload-name", "t"), ("priv-mode", "prv_s"), ("skip-opensbi", "true"),
        ("skip-autoboot", "true"), ("allow-reboot", "cold"), ("allow-reboot", "warm"),
        ("ancilliary-data", "d")]
    let other : List (String × String) :=
      [("ancilliary-data", "d"), ("allow-reboot", "cold"), ("owner-hart", "u54_1"),
        ("skip-autoboot", "true"), ("secondary-hart", "u54_2"), ("allow-reboot", "warm"),
        ("skip-opensbi", "true"), ("exec-addr", "0x10"), ("priv-mode", "prv_s"),
        ("payload-name", "t")]
    let attributes : List Attribute :=
      [.execAddr 16, .ownerHart .u54_1, .secondaryHart .u54_2, .payloadName "t",
        .privMode .supervisor, .skipOpenSbi true, .skipAutoboot true, .allowReboot .cold,
        .allowReboot .warm, .ancillaryData "d"]
    let permuted : List Attribute :=
      [.ancillaryData "d", .allowReboot .cold, .ownerHart .u54_1, .skipAutoboot true,
        .secondaryHart .u54_2, .allowReboot .warm, .skipOpenSbi true, .execAddr 16,
        .privMode .supervisor, .payloadName "t"]
    let sink := PayloadSink.answering fun _ => false
    let granted : BootFlags := ⟨true, true, true, true, true⟩
    let image : Image :=
      ⟨Name.ofText "PolarFireSOC-HSS::t",
        ⟨{ name := Name.ofText "t", privilege := .supervisor, flags := granted },
          { privilege := .supervisor, flags := granted }, {}, {}⟩⟩
    let requests : List PayloadSink.Request :=
      [.extract "a" .u54_1 16, .embed "a" 16 .u54_1 (some "d")]
    (configuration attributes).Spells .whole ((events fields).map fun event => event.kind) ∧
      (configuration permuted).Spells .whole ((events other).map fun event => event.kind) ∧
      List.Forall₂ Item.Reordered (configuration attributes).items (configuration permuted).items ∧
      (readEvents sink.recorded .whole (events fields)).Succeeds ([], ()) image (requests, ()) ∧
      (readEvents sink.recorded .whole (events other)).Succeeds ([], ()) image (requests, ()) := by
  intro events configuration fields other attributes permuted sink granted image requests
  have enclosed {fields attributes}
      (read : List.Forall₂ (fun field given => Attribute.read? .whole field.1 field.2 = some given)
        fields attributes) :
      (configuration attributes).Spells .whole ((events fields).map fun event => event.kind) := by
    have payload : Payload.Spells .whole ⟨"a", .opening :: attributes.map .entry⟩ _ :=
      ⟨_, .cons rfl (spelled_attributes read), rfl⟩
    have payloads : Section.Spells .whole (.payloads [.opening, .entry _]) _ :=
      ⟨"payloads", by decide, _, .cons rfl (.cons payload .nil), rfl⟩
    have written : (configuration attributes).Spells .whole _ :=
      ⟨_, .cons ⟨_, .cons ⟨_, .cons payloads .nil, rfl⟩ .nil, rfl⟩ .nil, rfl⟩
    simpa [events, Yaml.Event.kinds_ofKinds] using written
  have spelled := enclosed <| show List.Forall₂ _ fields attributes by
    simp only [fields, attributes, List.forall₂_cons, List.Forall₂.nil]
    decide +kernel
  have spelledAgain := enclosed <| show List.Forall₂ _ other permuted by
    simp only [other, permuted, List.forall₂_cons, List.Forall₂.nil]
    decide +kernel
  have reordered : List.Forall₂ Item.Reordered (configuration attributes).items
      (configuration permuted).items :=
    .cons (.payload "a" ⟨by decide, by intro field; cases field <;> rfl, rfl⟩) .nil
  have accepted :
      (readEvents sink.recorded .whole (events fields)).Succeeds ([], ()) image (requests, ()) :=
    ⟨by decide +kernel, by decide +kernel⟩
  have same :=
    accepted_iff_of_reordered sink .whole (events fields) (events other) (configuration attributes)
      (configuration permuted) spelled spelledAgain reordered ()
  exact ⟨spelled, spelledAgain, reordered, accepted, (same.2 image requests ()).mp accepted⟩

end HartBoot.Config
