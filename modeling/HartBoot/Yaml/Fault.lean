/-!
Contract: why a text is not YAML.

Owns:
- `Yaml.Fault`, a cause and the place at which it was found.

Does not own: the grammar itself (see `HartBoot.Yaml.Lexer` and `HartBoot.Yaml.Stream`).
-/

namespace HartBoot.Yaml

/-- Why a text is not YAML. -/
inductive Fault.Cause where
  /-- A tab stands where only spaces may indent. -/
  | tabIndentation
  /-- A line is indented less than the block it belongs to. -/
  | badIndentation
  /-- A line that has to be a key has no `:`. -/
  | missingColon
  | contentAfterDocumentEnd
  /-- A `#` stands directly behind something else. -/
  | unseparatedComment
  /-- A plain scalar starts with a character that has no meaning yet. -/
  | reservedCharacter (found : Char)
  | directiveName
  | directiveVersion
  | directiveRest
  | repeatedVersion
  | tagHandle
  | tagEscape
  | tagSuffix
  | tagRest
  | undeclaredTag
  | anchorName
  | unknownAlias
  /-- A `-`, `?` or `:` stands where no entry can start. -/
  | misplacedEntry
  /-- A `-` or `:` is separated by a tab from what follows. -/
  | tabSeparation
  | blockHeader
  | blockIndentation
  | unclosedQuote
  | markerInsideQuote
  | escape
  | contentAfterQuote
  | dashInFlow
  | tooManyBrackets
  | missingDocumentStart
  /-- The next token does not continue the structure. -/
  | unexpectedToken
  /-- The text needs more steps than a text of its length can need. -/
  | tooLong
  deriving DecidableEq, Repr

def Fault.Cause.message : Fault.Cause → String
  | .tabIndentation => "a tab cannot indent a line"
  | .badIndentation => "the line is not indented like its block"
  | .missingColon => "a key is not followed by ':'"
  | .contentAfterDocumentEnd => "content after the end of the document"
  | .unseparatedComment => "a comment is not separated by a blank"
  | .reservedCharacter found => "a plain scalar cannot start with '" ++ found.toString ++ "'"
  | .directiveName => "a directive has no name"
  | .directiveVersion => "a directive has no valid version"
  | .directiveRest => "content after a directive"
  | .repeatedVersion => "the version is given more than once"
  | .tagHandle => "a tag has no valid handle"
  | .tagEscape => "a tag has no valid escape"
  | .tagSuffix => "a tag has no name"
  | .tagRest => "content after a tag"
  | .undeclaredTag => "a tag handle has not been declared"
  | .anchorName => "an anchor or alias has no name"
  | .unknownAlias => "an alias names no anchor"
  | .misplacedEntry => "an entry cannot start here"
  | .tabSeparation => "a tab cannot separate an indicator from an entry"
  | .blockHeader => "a block scalar has no valid header"
  | .blockIndentation => "a block scalar is not indented evenly"
  | .unclosedQuote => "a quote is not closed"
  | .markerInsideQuote => "a document marker stands inside a quote"
  | .escape => "a quote holds an unknown escape"
  | .contentAfterQuote => "content after a quote"
  | .dashInFlow => "'-' cannot stand before a bracket or comma"
  | .tooManyBrackets => "brackets are nested too deeply"
  | .missingDocumentStart => "a document has no '---'"
  | .unexpectedToken => "the structure does not continue here"
  | .tooLong => "the text cannot be read to its end"

/-- A cause and the place at which it was found. -/
structure Fault where
  cause : Fault.Cause
  line : Nat
  column : Nat
  deriving DecidableEq, Repr

end HartBoot.Yaml
