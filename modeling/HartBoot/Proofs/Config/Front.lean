import HartBoot.Proofs.Config.Summary

/-!
Contract: the beginnings of configurations.

Owns:
- `Front`, the beginning of a configuration: the items that it says, and the position at which it
  ends;
- `Front.Spells`, which says by which kinds of events a front is written down;
- `Front.blocks`, the payload blocks that a front has closed, and `Front.ended`, the one that the
  events behind it end;
- the rules by which a beginning grows: one more entry, and the end of a list.

A front is described by the grammar of configurations alone: lists that have been opened, each
behind the one around it, and the entries that have been written down in full.

Does not own: which fronts a machine accepts (see `HartBoot.Proofs.Config.FrontMoves`).
-/

namespace HartBoot.Config

open Yaml.Event (Kind)

variable {α β : Type}

/-! ## Fronts -/

/-- The position at which the beginning of a configuration ends, with what has been written down of
a part that is not complete. -/
inductive Position where
  | outside
  | stream
  | document
  | mapping
  | setName
  | entryPoints
  | entryPoint (hart : Hart)
  | payloads
  | block (path : Path) (attributes : List Attribute)
  | field (path : Path) (attributes : List Attribute) (field : Field)
  | finished
  deriving DecidableEq, Repr

/-- The beginning of a configuration: what it says in full, and where it ends. -/
structure Front where
  items : List Item
  position : Position
  deriving DecidableEq, Repr

namespace Front

/-- The payload blocks that have been closed. -/
def blocks (front : Front) : List Block :=
  front.items.flatMap Item.described

/-- The payload block that the events behind a front end: the one that is open, if the end of its
mapping comes next. -/
def ended (front : Front) (behind : List Kind) : List Block :=
  match front.position, behind with
  | .block path attributes, .mappingEnd :: _ => [Block.describedBy path attributes]
  | _, _ => []

theorem ended_nil (front : Front) : front.ended [] = [] := by
  rcases front with ⟨items, position⟩
  cases position <;> rfl

end Front

/-! ## Spelling -/

/-- One more event has been written down. -/
def Followed (begun : List Kind → Prop) (follows : Kind → Prop) (kinds : List Kind) : Prop :=
  ∃ front last, begun front ∧ follows last ∧ kinds = front ++ [last]

/-- Behind the beginning of what is around it a list has been opened, and some of its entries have
been written down. -/
def Opened
    (around : List Item → List Kind → Prop)
    (opens : Kind → Prop)
    (spells : α → List Kind → Prop)
    (items : α → List Item)
    (said : List Item)
    (kinds : List Kind) :
    Prop :=
  ∃ before front entries body,
    Followed (around before) opens front ∧ Spelled spells entries body ∧
      said = before ++ entries.flatMap items ∧ kinds = front ++ body

/-- A scalar is a keyword with a meaning. -/
def Names
    (matching : Matching)
    (meaning : Keyword → Option α)
    (value : α)
    (kind : Kind) :
    Prop :=
  ∃ key, (Keyword.resolve? matching key).bind meaning = some value ∧ kind = .scalar key

theorem Names.resolved
    {matching : Matching}
    {keyword : Keyword}
    {kind : Kind}
    (named : Names matching some keyword kind) :
    ∃ key, Keyword.resolve? matching key = some keyword ∧ kind = .scalar key := by
  rcases named with ⟨key, resolved, same⟩
  rw [Option.bind_fun_some] at resolved
  exact ⟨key, resolved, same⟩

section

variable (matching : Matching)

def NothingBegun (said : List Item) (kinds : List Kind) : Prop :=
  said = [] ∧ kinds = []

def StreamBegun : List Item → List Kind → Prop :=
  Opened NothingBegun (· = .streamStart) (Document.Spells matching) Document.items

def DocumentBegun : List Item → List Kind → Prop :=
  Opened (StreamBegun matching) (· = .documentStart) (Mapping.Spells matching) Mapping.items

def MappingBegun : List Item → List Kind → Prop :=
  Opened (DocumentBegun matching) (· = .mappingStart) (Section.Spells matching) Section.items

def EntryPointsBegun : List Item → List Kind → Prop :=
  Opened (MappingBegun matching) (Names matching some .hartEntryPoints)
    (Part.Spells (EntryPoint.Spells matching)) (Part.items EntryPoint.items)

def PayloadsBegun : List Item → List Kind → Prop :=
  Opened (MappingBegun matching) (Names matching some .payloads)
    (Part.Spells (Payload.Spells matching)) (Part.items Payload.items)

/-- Behind the payloads that have been closed, one more has been opened, and some of its attributes
have been written down. -/
def BlockBegun
    (path : Path)
    (attributes : List Attribute)
    (items : List Item)
    (kinds : List Kind) :
    Prop :=
  ∃ front parts body,
    Followed (PayloadsBegun matching items) (· = .scalar path) front ∧
      Spelled (Part.Spells (Attribute.Spells matching)) parts body ∧
      attributes = parts.flatMap (Part.items List.singleton) ∧ kinds = front ++ body

/-- Some kinds of events write down a whole configuration. -/
def Whole (said : List Item) (kinds : List Kind) : Prop :=
  ∃ configuration : Configuration,
    configuration.Spells matching kinds ∧ said = configuration.items

/-- Some kinds of events write down the beginning of a configuration up to a position. -/
def Position.Begun : Position → List Item → List Kind → Prop
  | .outside => NothingBegun
  | .stream => StreamBegun matching
  | .document => DocumentBegun matching
  | .mapping => MappingBegun matching
  | .setName => fun said => Followed (MappingBegun matching said) (Names matching some .setName)
  | .entryPoints => EntryPointsBegun matching
  | .entryPoint hart => fun said =>
    Followed (EntryPointsBegun matching said) (Names matching Keyword.hart? hart)
  | .payloads => PayloadsBegun matching
  | .block path attributes => BlockBegun matching path attributes
  | .field path attributes given => fun said =>
    Followed (BlockBegun matching path attributes said) (Names matching Field.ofKeyword? given)
  | .finished => Whole matching

/-- Some kinds of events write down a front, and nothing else. -/
def Front.Spells (front : Front) (kinds : List Kind) : Prop :=
  front.position.Begun matching front.items kinds

end

/-! ## Longer beginnings -/

theorem Spelled.append_singleton
    {spells : α → List Kind → Prop}
    {entries : List α}
    {front back : List Kind}
    (spelled : Spelled spells entries front)
    {entry : α}
    (last : spells entry back) :
    Spelled spells (entries ++ [entry]) (front ++ back) := by
  induction spelled with
  | nil =>
    have single := Spelled.cons last .nil
    rwa [List.append_nil] at single
  | cons first _ inductionHypothesis =>
    have longer := Spelled.cons first inductionHypothesis
    rwa [← List.append_assoc] at longer

section Opened

variable {around : List Item → List Kind → Prop} {opens : Kind → Prop}
  {spells : α → List Kind → Prop} {items : α → List Item} {said : List Item} {kinds : List Kind}

/-- A list starts without entries. -/
theorem Opened.enter
    {first : Kind}
    (begun : around said kinds)
    (opening : opens first) :
    Opened around opens spells items said (kinds ++ [first]) := by
  have entered : Followed (around said) opens (kinds ++ [first]) :=
    ⟨kinds, first, begun, opening, rfl⟩
  exact ⟨said, _, [], [], entered, .nil, (List.append_nil _).symm, (List.append_nil _).symm⟩

theorem Opened.more
    (opened : Opened around opens spells items said kinds)
    (entry : α)
    {back : List Kind}
    (spelled : spells entry back) :
    Opened around opens spells items (said ++ items entry) (kinds ++ back) := by
  rcases opened with ⟨before, front, entries, body, entered, others, rfl, rfl⟩
  refine ⟨before, front, _, _, entered, others.append_singleton spelled, ?_, ?_⟩
  · rw [List.flatMap_append, List.flatMap_singleton, List.append_assoc]
  · exact List.append_assoc _ _ _

/-- The start of a mapping adds nothing to a list of parts. -/
theorem Opened.opening
    (opened : Opened around opens (Part.Spells spells) (Part.items items) said kinds) :
    Opened around opens (Part.Spells spells) (Part.items items) said
      (kinds ++ [.mappingStart]) := by
  have longer := opened.more .opening rfl
  rwa [Part.items, List.append_nil] at longer

/-- The last event of a list completes it, as an entry of the list around it. -/
theorem Opened.complete
    {inner : β → List Kind → Prop}
    {innerItems : β → List Item}
    {enters : Kind → Prop}
    (opened : Opened (Opened around opens spells items) enters inner innerItems said kinds)
    {last : Kind}
    (entry : List β → α)
    (written : ∀ first entries back, enters first →
      Bracketed first last inner entries back → spells (entry entries) back)
    (means : ∀ entries, items (entry entries) = entries.flatMap innerItems) :
    Opened around opens spells items said (kinds ++ [last]) := by
  rcases opened with ⟨before, front, entries, body, entered, spelled, rfl, rfl⟩
  rcases entered with ⟨outside, first, begun, opening, rfl⟩
  have whole := written first entries _ opening ⟨body, spelled, rfl⟩
  have longer := begun.more (entry entries) whole
  rw [means] at longer
  simpa using longer

end Opened

section Begun

variable {matching : Matching} {path : Path} {attributes : List Attribute} {items : List Item}
  {kinds : List Kind}

/-- The value of `set-name` completes a section. -/
theorem MappingBegun.setName
    (named : Followed (MappingBegun matching items) (Names matching some .setName) kinds)
    (text : String) :
    MappingBegun matching (items ++ [.setName text]) (kinds ++ [.scalar text]) := by
  rcases named with ⟨front, last, begun, names, rfl⟩
  obtain ⟨key, resolved, rfl⟩ := names.resolved
  rw [List.append_assoc]
  exact begun.more (.setName text) ⟨key, resolved, rfl⟩

/-- The address of a hart completes an entry point. -/
theorem EntryPointsBegun.address
    {hart : Hart}
    (named : Followed (EntryPointsBegun matching items) (Names matching Keyword.hart? hart) kinds)
    {value : String}
    {address : UInt64}
    (number : Numeral.read? value = some address) :
    EntryPointsBegun matching (items ++ [.entryPoint ⟨hart, address⟩])
      (kinds ++ [.scalar value]) := by
  rcases named with ⟨front, last, begun, ⟨key, resolved, rfl⟩, rfl⟩
  have written : EntryPoint.Spells matching ⟨hart, address⟩ ([.scalar key] ++ [.scalar value]) :=
    ⟨key, value, resolved, number, rfl⟩
  rw [List.append_assoc]
  exact begun.more (.entry ⟨hart, address⟩) written

/-- A payload block starts with its path. -/
theorem PayloadsBegun.enterBlock
    (begun : PayloadsBegun matching items kinds)
    (path : Path) :
    BlockBegun matching path [] items (kinds ++ [.scalar path]) := by
  have entered :
      Followed (PayloadsBegun matching items) (· = .scalar path) (kinds ++ [.scalar path]) :=
    ⟨kinds, _, begun, rfl, rfl⟩
  exact ⟨_, [], [], entered, .nil, rfl, (List.append_nil _).symm⟩

theorem BlockBegun.more
    (begun : BlockBegun matching path attributes items kinds)
    (part : Part Attribute)
    {back : List Kind}
    (spelled : part.Spells (Attribute.Spells matching) back) :
    BlockBegun matching path (attributes ++ part.items List.singleton) items (kinds ++ back) := by
  rcases begun with ⟨front, parts, body, entered, others, rfl, rfl⟩
  refine ⟨front, _, _, entered, others.append_singleton spelled, ?_, List.append_assoc _ _ _⟩
  rw [List.flatMap_append, List.flatMap_singleton]

/-- The start of a mapping adds nothing to a payload block. -/
theorem BlockBegun.opening (begun : BlockBegun matching path attributes items kinds) :
    BlockBegun matching path attributes items (kinds ++ [.mappingStart]) := by
  have longer := begun.more .opening rfl
  rwa [Part.items, List.append_nil] at longer

/-- The value of a field completes an attribute. -/
theorem BlockBegun.value
    {field : Field}
    (named : Followed (BlockBegun matching path attributes items)
      (Names matching Field.ofKeyword? field) kinds)
    {value : String}
    {given : Attribute}
    (meant : field.attribute? matching value = some given) :
    BlockBegun matching path (attributes ++ [given]) items (kinds ++ [.scalar value]) := by
  rcases named with ⟨front, last, begun, ⟨key, resolved, rfl⟩, rfl⟩
  have read : Attribute.read? matching key value = some given :=
    Option.bind_eq_some_iff.mpr ⟨field, resolved, meant⟩
  rw [List.append_assoc]
  exact begun.more (.entry given) ⟨key, value, read, rfl⟩

/-! ### Ends -/

theorem BlockBegun.complete
    (begun : BlockBegun matching path attributes items kinds) :
    PayloadsBegun matching (items ++ [.payload path attributes]) (kinds ++ [.mappingEnd]) := by
  rcases begun with ⟨front, parts, body, entered, spelled, rfl, rfl⟩
  rcases entered with ⟨outside, first, begun, rfl, rfl⟩
  have same : outside ++ [.scalar path] ++ body ++ [.mappingEnd] =
      outside ++ .scalar path :: (body ++ [.mappingEnd]) := by simp
  rw [same]
  exact begun.more (.entry ⟨path, parts⟩) ⟨body, spelled, rfl⟩

theorem PayloadsBegun.complete (begun : PayloadsBegun matching items kinds) :
    MappingBegun matching items (kinds ++ [.mappingEnd]) := by
  apply Opened.complete begun Section.payloads
  · intro first parts back named whole
    obtain ⟨key, resolved, rfl⟩ := named.resolved
    exact ⟨key, resolved, whole⟩
  · exact fun _ => rfl

theorem EntryPointsBegun.complete (begun : EntryPointsBegun matching items kinds) :
    MappingBegun matching items (kinds ++ [.mappingEnd]) := by
  apply Opened.complete begun Section.entryPoints
  · intro first parts back named whole
    obtain ⟨key, resolved, rfl⟩ := named.resolved
    exact ⟨key, resolved, whole⟩
  · exact fun _ => rfl

theorem MappingBegun.complete (begun : MappingBegun matching items kinds) :
    DocumentBegun matching items (kinds ++ [.mappingEnd]) := by
  apply Opened.complete begun fun sections => sections
  · rintro first sections back rfl whole
    exact whole
  · exact fun _ => rfl

theorem DocumentBegun.complete (begun : DocumentBegun matching items kinds) :
    StreamBegun matching items (kinds ++ [.documentEnd]) := by
  apply Opened.complete begun fun mappings => mappings
  · rintro first mappings back rfl whole
    exact whole
  · exact fun _ => rfl

theorem StreamBegun.complete (begun : StreamBegun matching items kinds) :
    Whole matching items (kinds ++ [.streamEnd]) := by
  rcases begun with ⟨before, front, documents, body, entered, spelled, rfl, rfl⟩
  rcases entered with ⟨outside, first, ⟨rfl, rfl⟩, rfl, rfl⟩
  exact ⟨documents, ⟨body, spelled, rfl⟩, rfl⟩

end Begun

end HartBoot.Config
