/-!
Contract: the structure of a YAML stream as a sequence of events.

Owns:
- `Yaml.Event`, one step into, along or out of the structure, with the line and column at which
  it was found. Lines count from one, columns from zero.

Tags and anchor names are not kept: nothing downstream depends on them.

Does not own: how text becomes events (see `HartBoot.Yaml.Stream`).
-/

namespace HartBoot.Yaml

/-- What an event says about the structure. -/
inductive Event.Kind where
  | streamStart
  | streamEnd
  | documentStart
  | documentEnd
  | mappingStart
  | mappingEnd
  | sequenceStart
  | sequenceEnd
  | alias
  | scalar (value : String)
  deriving DecidableEq, Repr

/-- An event and where it was found. -/
structure Event where
  kind : Event.Kind
  line : Nat
  column : Nat
  deriving DecidableEq, Repr

/-- Events of some kinds, all of them found at the start of the text. -/
def Event.ofKinds (kinds : List Event.Kind) : List Event :=
  kinds.map fun kind => ⟨kind, 1, 0⟩

theorem Event.kinds_ofKinds (kinds : List Event.Kind) :
    (ofKinds kinds).map (fun event => event.kind) = kinds :=
  List.map_map.trans kinds.map_id

/-- The name of an event in messages; a scalar shows its value. -/
def Event.Kind.label : Event.Kind → String
  | .streamStart => "STREAM_START"
  | .streamEnd => "STREAM_END"
  | .documentStart => "DOCUMENT_START"
  | .documentEnd => "DOCUMENT_END"
  | .mappingStart => "MAPPING_START"
  | .mappingEnd => "MAPPING_END"
  | .sequenceStart => "SEQUENCE_START"
  | .sequenceEnd => "SEQUENCE_END"
  | .alias => "ALIAS"
  | .scalar value => "SCALAR >>" ++ value ++ "<<"

end HartBoot.Yaml
