import HartBoot.Proofs.Config.Attribute

/-!
Contract: the language of configurations.

Owns:
- the tree of a configuration: `Configuration`, its documents, their mappings and sections, and the
  parts of a section;
- the `Spells` relations, which say by which kinds of events a tree is written down;
- `Item` and `Configuration.items`, what a configuration says, without the structure around it.

The start of a mapping is an `opening` wherever it does not open a mapping of a document: any
number of them may stand among the entries of a section or of a payload block.

Does not own: which configurations are accepted (see `HartBoot.Proofs.Config.Language`).
-/

namespace HartBoot.Config

open Yaml.Event (Kind)

variable {α β : Type}

/-! ## Trees -/

/-- A part of a section or of a payload block. -/
inductive Part (α : Type) where
  | opening
  | entry (value : α)
  deriving DecidableEq, Repr

/-- An entry point, and the hart that starts there. -/
structure EntryPoint where
  hart : Hart
  address : UInt64
  deriving DecidableEq, Repr

/-- A payload block. -/
structure Payload where
  path : Path
  parts : List (Part Attribute)
  deriving DecidableEq, Repr

/-- A section of a mapping, introduced by a keyword. -/
inductive Section where
  | setName (text : String)
  | entryPoints (parts : List (Part EntryPoint))
  | payloads (parts : List (Part Payload))
  deriving DecidableEq, Repr

/-- A mapping of a document: its sections. -/
abbrev Mapping := List Section

/-- A document: its mappings. -/
abbrev Document := List Mapping

/-- A whole stream: its documents. -/
abbrev Configuration := List Document

/-! ## Spelling -/

/-- Some kinds of events write down the entries of a list, one after the other. -/
inductive Spelled (spells : α → List Kind → Prop) : List α → List Kind → Prop where
  | nil : Spelled spells [] []
  | cons {first : α} {rest : List α} {front back : List Kind} :
    spells first front → Spelled spells rest back → Spelled spells (first :: rest) (front ++ back)

/-- The entries of a list are written down between two events. -/
def Bracketed
    (first last : Kind)
    (spells : α → List Kind → Prop)
    (entries : List α)
    (kinds : List Kind) :
    Prop :=
  ∃ body, Spelled spells entries body ∧ kinds = first :: (body ++ [last])

/-- An opening is the start of a mapping. -/
def Part.Spells (spells : α → List Kind → Prop) : Part α → List Kind → Prop
  | .opening, kinds => kinds = [.mappingStart]
  | .entry value, kinds => spells value kinds

section

variable (matching : Matching)

/-- An entry point is the name of a hart and a number. -/
def EntryPoint.Spells (point : EntryPoint) (kinds : List Kind) : Prop :=
  ∃ key value,
    (Keyword.resolve? matching key).bind Keyword.hart? = some point.hart ∧
      Numeral.read? value = some point.address ∧ kinds = [.scalar key, .scalar value]

/-- An attribute is a keyword and a value. -/
def Attribute.Spells (given : Attribute) (kinds : List Kind) : Prop :=
  ∃ key value, Attribute.read? matching key value = some given ∧
    kinds = [.scalar key, .scalar value]

/-- A payload block starts with its path. -/
def Payload.Spells (payload : Payload) : List Kind → Prop :=
  Bracketed (.scalar payload.path) .mappingEnd (Part.Spells (Attribute.Spells matching))
    payload.parts

/-- A section starts with its keyword. -/
def Section.Spells : Section → List Kind → Prop
  | .setName text, kinds =>
    ∃ key, Keyword.resolve? matching key = some .setName ∧ kinds = [.scalar key, .scalar text]
  | .entryPoints parts, kinds =>
    ∃ key, Keyword.resolve? matching key = some .hartEntryPoints ∧
      Bracketed (.scalar key) .mappingEnd (Part.Spells (EntryPoint.Spells matching)) parts kinds
  | .payloads parts, kinds =>
    ∃ key, Keyword.resolve? matching key = some .payloads ∧
      Bracketed (.scalar key) .mappingEnd (Part.Spells (Payload.Spells matching)) parts kinds

def Mapping.Spells : Mapping → List Kind → Prop :=
  Bracketed .mappingStart .mappingEnd (Section.Spells matching)

def Document.Spells : Document → List Kind → Prop :=
  Bracketed .documentStart .documentEnd (Mapping.Spells matching)

/-- Some kinds of events write down a whole configuration. -/
def Configuration.Spells : Configuration → List Kind → Prop :=
  Bracketed .streamStart .streamEnd (Document.Spells matching)

end

/-! ## Items -/

/-- Something that a configuration says. -/
inductive Item where
  | setName (text : String)
  | entryPoint (point : EntryPoint)
  | payload (path : Path) (attributes : List Attribute)
  deriving DecidableEq, Repr

/-- What the entry of a part says; an opening says nothing. -/
def Part.items (items : α → List β) : Part α → List β
  | .opening => []
  | .entry value => items value

/-- The attributes of a payload block. -/
def Payload.attributes (payload : Payload) : List Attribute :=
  payload.parts.flatMap (Part.items List.singleton)

/-- What a payload block says. -/
def Payload.items (payload : Payload) : List Item :=
  [.payload payload.path payload.attributes]

def EntryPoint.items (point : EntryPoint) : List Item :=
  [.entryPoint point]

def Section.items : Section → List Item
  | .setName text => [.setName text]
  | .entryPoints parts => parts.flatMap (Part.items EntryPoint.items)
  | .payloads parts => parts.flatMap (Part.items Payload.items)

def Mapping.items (mapping : Mapping) : List Item :=
  mapping.flatMap Section.items

def Document.items (document : Document) : List Item :=
  document.flatMap Mapping.items

/-- What a configuration says, in its order. -/
def Configuration.items (configuration : Configuration) : List Item :=
  configuration.flatMap Document.items

end HartBoot.Config
