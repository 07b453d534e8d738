import HartBoot.Yaml.Lexer.Block
import HartBoot.Yaml.Lexer.Plain
import HartBoot.Yaml.Lexer.Property

/-!
Contract: the tokens of a text, in order.

Owns:
- the choice of the token that starts at a character;
- `Yaml.Scan`, the tokens that a text gives before its first fault, and `Yaml.scan`.

A token is given out only when no place before it can turn out to be a key any more.

Does not own: the structure of the tokens (see `HartBoot.Yaml.Stream`).
-/

namespace HartBoot.Yaml

namespace Lexing

/-- Pass blanks, comments and line breaks in front of a token. -/
def skipToToken : Nat → Lexing Unit
  | 0 => pure ()
  | budget + 1 => do
    let lexer ← get
    let char := lexer.next
    if char == '\t' && !lexer.indents.isEmpty && lexer.atLineStart &&
        lexer.column < lexer.indent then
      let _ ← skipTrailing true
      if Character.isLineEnd (← peek) then
        skipToToken budget
      else
        fail .tabIndentation
    else if Character.isBlank char then
      skipBlanks 1
      skipToToken budget
    else if Character.isBreak char then
      skipBreak
      unless lexer.inFlow do
        allowKey true
      skipToToken budget
    else if char == '#' then
      skipLine
      skipToToken budget
    else
      pure ()

/-- Pass the spaces, comments and line breaks behind a `?`. The answer says whether there was a
space or a break. -/
def skipBehindKey : Nat → Bool → Lexing Bool
  | 0, found => pure found
  | budget + 1, found => do
    let lexer ← get
    let char := lexer.next
    if char == ' ' then
      skipBlanks 1
      skipBehindKey budget true
    else if Character.isBreak char then
      skipBreak
      unless lexer.inFlow do
        allowKey true
      skipBehindKey budget true
    else if char == '#' then
      skipLine
      skipBehindKey budget found
    else
      return found

/-! ## The tokens -/

def streamStart : Lexing Unit := do
  let lexer ← get
  set
    { lexer with
      indent := -1
      started := true
      keyAllowed := true
      keys := PossibleKey.absent :: lexer.keys }
  emit lexer.mark .streamStart

/-- The end of the stream stands at the start of a line. -/
def streamEnd : Lexing Unit := do
  modify fun lexer =>
    if lexer.mark.column == 0 then lexer
    else { lexer with mark := { lexer.mark with line := lexer.mark.line + 1, column := 0 } }
  let lexer ← get
  if lexer.keys.any fun key => key.required && key.isOpen then
    fail .missingColon
  set { lexer with keys := lexer.keys.map PossibleKey.close }
  closeBlocks (-1)
  dropKey
  allowKey false
  emit (← get).mark .streamEnd

def directive : Lexing Unit := do
  closeBlocks (-1)
  dropKey
  allowKey false
  let token ← readDirective
  emit token.mark token.kind

def documentMarker (kind : Token.Kind) : Lexing Unit := do
  closeBlocks (-1)
  dropKey
  allowKey false
  let start := (← get).mark
  skip 3
  emit start kind

/-- The end marker of a document; nothing but a comment may follow it. -/
def documentEnd : Lexing Unit := do
  documentMarker .documentEnd
  let _ ← skipTrailing true
  unless Character.isLineEnd (← peek) do
    fail .contentAfterDocumentEnd

def maxFlowLevel : Nat := 255

def openFlow (kind : Token.Kind) : Lexing Unit := do
  saveKey
  deepen
  let lexer ← get
  if maxFlowLevel ≤ lexer.flowLevel then
    fail .tooManyBrackets
  let start := lexer.mark
  set
    { lexer with
      keys := PossibleKey.absent :: lexer.keys
      flowLevel := lexer.flowLevel + 1
      keyAllowed := true }
  skip 1
  modify fun lexer =>
    if kind = .flowMappingStart then { lexer with mappingAnnounced := true } else lexer
  let _ ← skipTrailing true
  emit start kind

/-- End the mapping without braces, if one is open. A comma or a closing bracket ends it, also
one that belongs to a collection inside the mapping. -/
def endBareMapping : Lexing Unit := do
  let lexer ← get
  if lexer.inBareMapping then
    set { lexer with mappingAnnounced := false, inBareMapping := false }
    emit lexer.mark .flowMappingEnd

def closeFlow (kind : Token.Kind) : Lexing Unit := do
  dropKey
  modify fun lexer =>
    if lexer.inFlow then
      { lexer with flowLevel := lexer.flowLevel - 1, keys := lexer.keys.drop 1 }
    else lexer
  allowKey false
  endBareMapping
  let start := (← get).mark
  skip 1
  let _ ← skipTrailing true
  modify fun lexer =>
    if lexer.inFlow then { lexer with adjacentAt := lexer.mark.index } else lexer
  emit start kind

/-- A comma between the entries of a flow collection. -/
def flowEntry : Lexing Unit := do
  dropKey
  allowKey true
  endBareMapping
  let start := (← get).mark
  skip 1
  let _ ← skipTrailing true
  emit start .flowEntry

/-- Whether the last token that waits is an anchor or tag at the start of a line. -/
def lastIsProperty (lexer : Lexer) : Option Mark :=
  match lexer.queue.getLast? with
  | some ⟨.anchor _, mark⟩ => if mark.column == 0 then some mark else none
  | some ⟨.tag _ _, mark⟩ => if mark.column == 0 then some mark else none
  | _ => none

/-- A `-` in front of an entry of a block sequence. -/
def blockEntry : Lexing Unit := do
  let lexer ← get
  if lexer.inFlow || !lexer.keyAllowed then
    fail .misplacedEntry
  match lastIsProperty lexer with
  | some mark =>
    if lexer.mark.column == 0 && -1 < lexer.indent then
      failAt mark .badIndentation
  | none => pure ()
  let start := lexer.mark
  skip 1
  openBlock start.column none start .blockSequenceStart
  let blanks ← skipTrailing true
  let behind ← get
  if blanks.contains '\t' && behind.next == '-' && Character.isGap (behind.ahead 1) then
    fail .tabSeparation
  let _ ← skipTrailing false
  let char ← peek
  if Character.isBreak char || Character.isFlow char then
    deepen
  dropKey
  allowKey true
  emit (← get).mark .blockEntry

/-- A `?` in front of a key. -/
def explicitKey : Lexing Unit := do
  let lexer ← get
  let start := lexer.mark
  if lexer.inFlow then
    set { lexer with mappingAnnounced := true }
  else if !lexer.keyAllowed then
    fail .misplacedEntry
  else
    openBlock start.column none start .blockMappingStart
  dropKey
  allowKey (!lexer.inFlow)
  skip 1
  let separated ← skipBehindKey (← get).budget false
  if !separated then
    fail .misplacedEntry
  if (← peek) == '\t' then
    fail .tabIndentation
  emit start .key

/-- A `:` in front of a value. The place before it that could be a key is one. In brackets the
pair may start a mapping without braces, which is told behind the `:`. -/
def value : Lexing Unit := do
  let lexer ← get
  let key := lastKey lexer
  let start := lexer.mark
  let isBare := lexer.inFlow && !lexer.mappingAnnounced
  set { lexer with inBareMapping := isBare }
  skip 1
  if (← peek) == '\t' then
    let blanks ← skipTrailing true
    let char ← peek
    if !blanks.contains ' ' && (char == '-' || Character.isHandle char) then
      fail .tabSeparation
  let behind := (← get).mark
  if key.isOpen then
    emitBefore key.number key.mark .key
    if isBare then
      if key.mark.line < start.line then
        failAt start .misplacedEntry
      emitBefore key.number behind .flowMappingStart
    openBlock key.mark.column (some key.number) start .blockMappingStart
    deepen
    closeKey
    allowKey false
  else
    if isBare then
      emit behind .flowMappingStart
    unless lexer.inFlow do
      if !lexer.keyAllowed then
        failAt start .misplacedEntry
      openBlock start.column none start .blockMappingStart
    deepen
    allowKey (!lexer.inFlow)
  emit start .value

def anchor (kind : String → Token.Kind) : Lexing Unit := do
  saveKey
  allowKey false
  let start := (← get).mark
  let name ← readAnchorName
  emit start (kind name)

def tag : Lexing Unit := do
  saveKey
  allowKey false
  let token ← readTag
  emit token.mark token.kind

def blockScalar (literal : Bool) : Lexing Unit := do
  saveKey
  allowKey true
  let token ← readBlock literal
  emit token.mark token.kind

/-- A quoted scalar; a `:` may follow it without a blank. -/
def quotedScalar (single : Bool) : Lexing Unit := do
  saveKey
  allowKey false
  let token ← readQuoted single
  skipToToken (← get).budget
  modify fun lexer => { lexer with adjacentAt := lexer.mark.index }
  emit token.mark token.kind

def plainScalar : Lexing Unit := do
  saveKey
  allowKey false
  let token ← readPlain
  emit token.mark token.kind

/-- Whether a `:` is followed by what may follow the indicator of a value. -/
def isValueIndicator (lexer : Lexer) : Bool :=
  let following := lexer.ahead 1
  Character.isGap following ||
    (lexer.inFlow && (Character.isFlow following || lexer.mark.index == lexer.adjacentAt))

/-- The token that starts at the next character of content. -/
def content : Lexing Unit := do
  let lexer ← get
  let char := lexer.next
  let gap := Character.isGap (lexer.ahead 1)
  match char with
  | '[' => openFlow .flowSequenceStart
  | '{' => openFlow .flowMappingStart
  | ']' => closeFlow .flowSequenceEnd
  | '}' => closeFlow .flowMappingEnd
  | ',' => flowEntry
  | '*' => anchor .alias
  | '&' => anchor .anchor
  | '!' => tag
  | '\'' => quotedScalar true
  | '"' => quotedScalar false
  | '%' => fail (.reservedCharacter char)
  | '@' => fail (.reservedCharacter char)
  | '\x60' => fail (.reservedCharacter char)
  | _ =>
    if char == '-' && gap then blockEntry
    else if char == '?' && gap then explicitKey
    else if char == ':' && isValueIndicator lexer then value
    else if char == '|' && !lexer.inFlow then blockScalar true
    else if char == '>' && !lexer.inFlow then blockScalar false
    else plainScalar

/-- Find the next token, and whatever tokens belong in front of it. -/
def fetch : Lexing Unit := do
  if !(← get).started then
    streamStart
  else
    skipToToken (← get).budget
    dropStaleKeys
    closeBlocks (← get).column
    let lexer ← get
    if lexer.next == Character.endOfText then
      streamEnd
    else if lexer.mark.column == 0 && lexer.next == '%' then
      directive
    else if lexer.mark.column == 0 && lexer.atMarker '-' then
      documentMarker .documentStart
    else if lexer.mark.column == 0 && lexer.atMarker '.' then
      documentEnd
    else if lexer.column < lexer.indent then
      fail .badIndentation
    else
      content

/-- Whether the first token that waits may still turn out to be a key. -/
def firstMayBeKey (lexer : Lexer) : Bool :=
  lexer.keys.any fun key => key.isOpen && key.number == lexer.delivered

/-- Find tokens until the first one can be given out. -/
def fetchEnough : Nat → Lexing Unit
  | 0 => fail .tooLong
  | budget + 1 => do
    if (← get).queue.isEmpty then
      fetch
      fetchEnough budget
    else
      dropStaleKeys
      if firstMayBeKey (← get) then
        fetch
        fetchEnough budget

def deliver : Lexing Delivery := do
  fetchEnough ((← get).budget + 3)
  let lexer ← get
  match lexer.queue with
  | token :: rest => do
    set { lexer with queue := rest, delivered := lexer.delivered + 1 }
    return ⟨token, lexer.mark⟩
  | [] => fail .tooLong

end Lexing

/-- The tokens that a text gives, and the fault that stops them if there is one. -/
structure Scan where
  deliveries : List Delivery
  fault : Option Fault
  deriving Repr

/-- The tokens that a lexer gives out, up to the end of the stream. -/
def Lexer.deliverAll : Nat → Lexer → Scan
  | 0, lexer => ⟨[], some ⟨.tooLong, lexer.mark.line, lexer.mark.column⟩⟩
  | budget + 1, lexer =>
    match Lexing.deliver.run lexer with
    | .error fault => ⟨[], some fault⟩
    | .ok (delivery, lexer) =>
      if delivery.token.kind = .streamEnd then ⟨[delivery], none⟩
      else
        let scan := deliverAll budget lexer
        { scan with deliveries := delivery :: scan.deliveries }

/-- The tokens of a text. No character gives more than a few. -/
def scan (text : String) : Scan :=
  let lexer := Lexer.start text
  lexer.deliverAll (8 * (lexer.budget + 1))

end HartBoot.Yaml
