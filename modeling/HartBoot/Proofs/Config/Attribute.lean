import HartBoot.Config.Machine
import HartBoot.Proofs.Config.Draft

/-!
Contract: what an attribute of a payload block says.

Owns:
- `Config.Attribute`, an attribute together with its value;
- `Attribute.read?`, the attribute that a key and a value denote;
- `Block.take` and `Attribute.assignments`, what an attribute does to a block and to a draft, and
  `Gives`, where it may stand;
- `succeeds_readField`, which says that the machine does the same.

Does not own: the order of the attributes in a block (see `HartBoot.Proofs.Config.Payload`).
-/

namespace HartBoot.Config

variable {σ : Type}

/-- An attribute of a payload block, with its value. -/
inductive Attribute where
  | execAddr (address : UInt64)
  | ownerHart (hart : Hart)
  | secondaryHart (hart : Hart)
  | payloadName (title : String)
  | privMode (mode : Privilege)
  | skipOpenSbi (choice : Bool)
  | skipAutoboot (choice : Bool)
  | allowReboot (reboot : Reboot)
  | ancillaryData (path : Path)
  deriving DecidableEq, Repr

/-- The attribute that a value gives to a field, if it is a value for that field. -/
def Field.attribute? (matching : Matching) (field : Field) (value : String) : Option Attribute :=
  let keyword? := Keyword.resolve? matching value
  match field with
  | .execAddr => (Numeral.read? value).map .execAddr
  | .ownerHart => (keyword?.bind Keyword.hart?).map .ownerHart
  | .secondaryHart => (keyword?.bind Keyword.hart?).map .secondaryHart
  | .payloadName => some (.payloadName value)
  | .privMode => (keyword?.bind Keyword.privilege?).map .privMode
  | .skipOpenSbi => (Numeral.readBool? value).map .skipOpenSbi
  | .skipAutoboot => (Numeral.readBool? value).map .skipAutoboot
  | .allowReboot => (keyword?.bind Keyword.reboot?).map .allowReboot
  | .ancillaryData => some (.ancillaryData value)

/-- Only the value of `priv-mode` gives a privilege mode. -/
theorem Field.attribute?_eq_privMode_iff
    {matching : Matching}
    {field : Field}
    {value : String}
    {mode : Privilege} :
    field.attribute? matching value = some (.privMode mode) ↔
      field = .privMode ∧ (Keyword.resolve? matching value).bind Keyword.privilege? = some mode := by
  cases field <;> simp [Field.attribute?, Option.map_eq_some_iff, -Option.map_bind]

namespace Attribute

/-- The attribute that a key and a value denote. -/
def read? (matching : Matching) (key value : String) : Option Attribute :=
  ((Keyword.resolve? matching key).bind Field.ofKeyword?).bind fun field =>
    field.attribute? matching value

/-- The assignments of privilege modes that an attribute of a block makes. -/
def assignments (block : Block) : Attribute → List Assignment
  | .privMode mode => block.assignments mode
  | _ => []

/-- Whether a block has room for an attribute: for a secondary hart if it has less than three,
and for a privilege mode if it has an owner. -/
def Fits (block : Block) : Attribute → Prop
  | .secondaryHart _ => block.secondaries.length < maxSecondaries
  | .privMode _ => block.owner.isSome
  | _ => True

end Attribute

/-- The block after one more attribute. -/
def Block.take (block : Block) : Attribute → Block
  | .execAddr address => { block with address := address }
  | .ownerHart hart => { block with owner := some hart }
  | .secondaryHart hart => { block with secondaries := block.secondaries ++ [hart] }
  | .payloadName title => { block with title := some title }
  | .privMode mode => { block with privilege := mode }
  | .skipOpenSbi choice =>
    { block with entitlements := { block.entitlements with skipOpenSbi := choice } }
  | .skipAutoboot choice =>
    { block with entitlements := { block.entitlements with skipAutoboot := choice } }
  | .allowReboot reboot => { block with entitlements := block.entitlements.allow reboot }
  | .ancillaryData path =>
    { block with
      entitlements := { block.entitlements with ancillaryData := true }
      ancillary := some path }

/-- A block that is being read, and the draft that has been reached. -/
structure Filling (σ : Type) where
  block : Block
  draft : Draft σ

/-- An attribute is given: there is room for it, and every hart that shares its mode has none. -/
structure Gives (given : Attribute) (before after : Filling σ) : Prop where
  fits : given.Fits before.block
  admits : History.Holds before.draft.Admits (given.assignments before.block)
  block : before.block.take given = after.block
  draft : before.draft.assignAll (given.assignments before.block) = after.draft

namespace Machine

variable {matching : Matching} {place : Place} {before after : Draft σ}

@[simp] theorem succeeds_keywordValue
    {α : Type}
    {meaning : Keyword → Option α}
    {scalar : String}
    {value : α} :
    (keywordValue matching place meaning scalar).Succeeds before value after ↔
      (Keyword.resolve? matching scalar).bind meaning = some value ∧ before = after :=
  Action.succeeds_ofOption

@[simp] theorem succeeds_numberValue {scalar : String} {number : UInt64} :
    (numberValue place scalar).Succeeds before number after ↔
      Numeral.read? scalar = some number ∧ before = after :=
  Action.succeeds_ofOption

@[simp] theorem succeeds_boolValue {scalar : String} {choice : Bool} :
    (boolValue place scalar).Succeeds before choice after ↔
      Numeral.readBool? scalar = some choice ∧ before = after :=
  Action.succeeds_ofOption

@[simp] theorem succeeds_addSecondary {block filled : Block} {hart : Hart} :
    (addSecondary block hart).Succeeds before filled after ↔
      block.secondaries.length < maxSecondaries ∧
        { block with secondaries := block.secondaries ++ [hart] } = filled ∧ before = after := by
  unfold addSecondary
  by_cases room : block.secondaries.length < maxSecondaries
  · simp [room]
  · simp [room]

/-- A field is read by giving the attribute that its value denotes. -/
theorem succeeds_readField {block filled : Block} {field : Field} {value : String} :
    (readField matching place block field value).Succeeds before filled after ↔
      ∃ given,
        field.attribute? matching value = some given ∧
          Gives given ⟨block, before⟩ ⟨filled, after⟩ := by
  have unfolded : ∀ given, Gives given ⟨block, before⟩ ⟨filled, after⟩ ↔
      given.Fits block ∧ History.Holds before.Admits (given.assignments block) ∧
        block.take given = filled ∧ before.assignAll (given.assignments block) = after :=
    fun given => ⟨fun ⟨fits, admits, taken, assigned⟩ => ⟨fits, admits, taken, assigned⟩,
      fun ⟨fits, admits, taken, assigned⟩ => ⟨fits, admits, taken, assigned⟩⟩
  simp only [unfolded]
  cases field <;>
    simp only [Field.attribute?, Option.map_eq_some_iff, exists_exists_and_eq_and,
      Option.some.injEq, exists_eq_left', Attribute.Fits, Attribute.assignments, Block.take,
      Draft.assignAll, List.foldl_nil, History.holds_nil, true_and] <;>
    simp [readField, and_assoc, Draft.succeeds_givePrivilege, Draft.assignAll]

end Machine

end HartBoot.Config
