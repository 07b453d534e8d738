/-!
Contract: the tokens of a YAML text.

Owns:
- `Yaml.Mark`, a place in a text;
- `Yaml.Token`, a token, where it was found, and how far the text had been read when it was
  given out.

Does not own: how tokens are found (see `HartBoot.Yaml.Lexer`) and what they amount to (see
`HartBoot.Yaml.Stream`).
-/

namespace HartBoot.Yaml

/-- A place in a text. Lines count from one, columns and characters from zero. -/
structure Mark where
  index : Nat
  line : Nat
  column : Nat
  deriving DecidableEq, Repr

def Mark.first : Mark := ⟨0, 1, 0⟩

/-- What a token is. -/
inductive Token.Kind where
  | streamStart
  | streamEnd
  | versionDirective
  /-- A tag directive with its handle; a directive that is not known has none. -/
  | tagDirective (handle : String)
  | documentStart
  | documentEnd
  | blockSequenceStart
  | blockMappingStart
  | blockEnd
  | flowSequenceStart
  | flowSequenceEnd
  | flowMappingStart
  | flowMappingEnd
  | blockEntry
  | flowEntry
  | key
  | value
  | alias (name : String)
  | anchor (name : String)
  | tag (handle suffix : String)
  | scalar (text : String)
  deriving DecidableEq, Repr

/-- A token and where it was found. -/
structure Token where
  kind : Token.Kind
  mark : Mark
  deriving DecidableEq, Repr

/-- A token that has been given out, and how far the text had been read by then. -/
structure Delivery where
  token : Token
  reached : Mark
  deriving DecidableEq, Repr

end HartBoot.Yaml
