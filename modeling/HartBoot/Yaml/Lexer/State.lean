import HartBoot.Yaml.Character
import HartBoot.Yaml.Fault
import HartBoot.Yaml.Token

/-!
Contract: how far a text has been split into tokens, and the bookkeeping of its blocks.

Owns:
- `Yaml.Lexer`, the text that is left, the tokens that wait, the indentation of the open blocks,
  and the places that may turn out to be keys;
- reading characters, opening and closing blocks by indentation, and remembering and dropping
  possible keys.

A plain or quoted scalar turns out to be a key only when the `:` behind it is found. Its place is
therefore remembered, and the tokens in front of it are inserted afterwards.

Does not own: which characters form which token (see `HartBoot.Yaml.Lexer` and the modules of
the single kinds of tokens).
-/

namespace HartBoot.Yaml

/-- A place that turns out to be a key if a `:` follows. -/
structure PossibleKey where
  isOpen : Bool
  /-- Whether the text is no YAML unless it is a key. -/
  required : Bool
  /-- The number of the token that would be the key. -/
  number : Nat
  mark : Mark
  deriving Repr

def PossibleKey.absent : PossibleKey := ⟨false, false, 0, ⟨0, 0, 0⟩⟩

def PossibleKey.close (key : PossibleKey) : PossibleKey :=
  { key with isOpen := false }

/-- An indentation that was in force before a deeper one. -/
structure Indent where
  column : Int
  /-- Whether a token ends what the deeper one belongs to. -/
  isBlock : Bool
  deriving Repr

/-- How far a text has been split into tokens. -/
structure Lexer where
  rest : List Char
  mark : Mark
  /-- Tokens that have been found and not given out. -/
  queue : List Token
  /-- The number of tokens that have been given out. -/
  delivered : Nat
  started : Bool
  /-- Where a `:` may follow a value without a blank. -/
  adjacentAt : Nat
  /-- Whether a key may start here. -/
  keyAllowed : Bool
  /-- Possible keys, the one of the innermost collection first. -/
  keys : List PossibleKey
  /-- The indentation of the innermost block; minus one outside of any. -/
  indent : Int
  /-- Earlier indentations, the latest first. -/
  indents : List Indent
  /-- The number of open brackets and braces. -/
  flowLevel : Nat
  /-- Whether only blanks have been seen on this line. -/
  atLineStart : Bool
  /-- Whether a mapping inside brackets has already been announced. -/
  mappingAnnounced : Bool
  /-- Whether a mapping without braces is open. -/
  inBareMapping : Bool
  deriving Repr

/-- A part of the work of splitting a text into tokens. -/
abbrev Lexing := StateT Lexer (Except Fault)

namespace Lexer

/-- The lexer before the first character of a text. -/
def start (text : String) : Lexer where
  rest := text.toList.takeWhile (· != Character.endOfText)
  mark := Mark.first
  queue := []
  delivered := 0
  started := false
  adjacentAt := 0
  keyAllowed := false
  keys := []
  indent := -1
  indents := []
  flowLevel := 0
  atLineStart := true
  mappingAnnounced := false
  inBareMapping := false

/-- A character that has not been read, counted from the next one. -/
def ahead (lexer : Lexer) (offset : Nat) : Char :=
  lexer.rest[offset]?.getD Character.endOfText

def next (lexer : Lexer) : Char :=
  lexer.ahead 0

/-- The lexer behind some characters of the same line. -/
def behind (lexer : Lexer) (count : Nat) : Lexer :=
  { lexer with
    rest := lexer.rest.drop count
    mark :=
      { lexer.mark with
        index := lexer.mark.index + count
        column := lexer.mark.column + count } }

/-- The lexer at the start of the next line, if the next character breaks the line. -/
def behindBreak (lexer : Lexer) : Lexer :=
  let nextLine (rest : List Char) (width : Nat) : Lexer :=
    { lexer with
      rest := rest
      mark := ⟨lexer.mark.index + width, lexer.mark.line + 1, 0⟩
      atLineStart := true }
  match lexer.rest with
  | '\r' :: '\n' :: rest => nextLine rest 2
  | '\r' :: rest => nextLine rest 1
  | '\n' :: rest => nextLine rest 1
  | _ => lexer

/-- More than the number of characters that are left. -/
def budget (lexer : Lexer) : Nat :=
  lexer.rest.length + 1

/-- Whether a document marker made of three equal characters is next. -/
def atMarker (lexer : Lexer) (char : Char) : Bool :=
  lexer.ahead 0 == char && lexer.ahead 1 == char && lexer.ahead 2 == char &&
    Character.isGap (lexer.ahead 3)

/-- Whether `---` or `...` is next. -/
def atAnyMarker (lexer : Lexer) : Bool :=
  lexer.atMarker '-' || lexer.atMarker '.'

def inFlow (lexer : Lexer) : Bool :=
  lexer.flowLevel != 0

/-- The column of the next character, to be compared with an indentation. -/
def column (lexer : Lexer) : Int :=
  lexer.mark.column

/-- Whether the next character belongs to a plain scalar. -/
def atPlain (lexer : Lexer) : Bool :=
  let char := lexer.next
  let following := lexer.ahead 1
  if char == ':' && (Character.isGap following || (lexer.inFlow && Character.isFlow following))
  then false
  else !(lexer.inFlow && Character.isFlow char)

end Lexer

namespace Lexing

/-- The text is not YAML, as can be seen at a place. -/
def failAt {α : Type} (mark : Mark) (cause : Fault.Cause) : Lexing α :=
  throw ⟨cause, mark.line, mark.column⟩

/-- The text is not YAML, as can be seen here. -/
def fail {α : Type} (cause : Fault.Cause) : Lexing α := do
  failAt (← get).mark cause

def peek : Lexing Char := do
  return (← get).next

def skipBlanks (count : Nat) : Lexing Unit :=
  modify fun lexer => lexer.behind count

def skip (count : Nat) : Lexing Unit :=
  modify fun lexer => { lexer.behind count with atLineStart := false }

def skipBreak : Lexing Unit :=
  modify Lexer.behindBreak

def readBreak : Lexing String := do
  skipBreak
  return "\n"

/-- The characters of the same line that are next and belong to a class. -/
def upcoming (belongs : Char → Bool) : Lexing (List Char) := do
  return (← get).rest.takeWhile belongs

/-- Read the characters of content that belong to a class. -/
def readWhile (belongs : Char → Bool) : Lexing (List Char) := do
  let chars ← upcoming belongs
  unless chars.isEmpty do
    skip chars.length
  return chars

def readBlanks (belongs : Char → Bool) : Lexing (List Char) := do
  let chars ← upcoming belongs
  skipBlanks chars.length
  return chars

/-- Pass everything up to the end of the line. -/
def skipLine : Lexing Unit := do
  let _ ← readWhile fun char => !Character.isLineEnd char

/-- Pass the blanks and the comment, if any, behind a token on its line. The answer is the
blanks that were found. -/
def skipTrailing (tabs : Bool) : Lexing (List Char) := do
  let blanks ← readBlanks fun char => char == ' ' || (tabs && char == '\t')
  if (← peek) == '#' then
    if blanks.isEmpty then
      fail .unseparatedComment
    else
      skipLine
  return blanks

def allowKey (allowed : Bool) : Lexing Unit :=
  modify fun lexer => { lexer with keyAllowed := allowed }

def emit (mark : Mark) (kind : Token.Kind) : Lexing Unit :=
  modify fun lexer => { lexer with queue := lexer.queue ++ [⟨kind, mark⟩] }

/-- Put a token in front of the one with a number. -/
def emitBefore (number : Nat) (mark : Mark) (kind : Token.Kind) : Lexing Unit :=
  modify fun lexer =>
    let (before, after) := lexer.queue.splitAt (number - lexer.delivered)
    { lexer with queue := before ++ ⟨kind, mark⟩ :: after }

/-! ## Indentation -/

def popIndent (lexer : Lexer) (previous : Indent) (earlier : List Indent) : Lexer :=
  { lexer with indent := previous.column, indents := earlier }

/-- Return to an indentation that is not deeper than a column, among earlier ones. -/
def closeTo (column : Int) : List Indent → Lexing Unit
  | [] => pure ()
  | previous :: earlier => do
    let lexer ← get
    if column < lexer.indent then
      set (popIndent lexer previous earlier)
      if previous.isBlock then
        emit lexer.mark .blockEnd
      closeTo column earlier

/-- End the blocks that are indented deeper than a column. -/
def closeBlocks (column : Int) : Lexing Unit := do
  let lexer ← get
  unless lexer.inFlow do
    closeTo column lexer.indents

/-- Start a block at a column, if it is indented deeper than the block around it. The token for
its start goes in front of the token with a number, or behind all others. -/
def openBlock (column : Nat) (number : Option Nat) (mark : Mark) (kind : Token.Kind) :
    Lexing Unit := do
  unless (← get).inFlow do
    modify fun lexer =>
      match lexer.indents with
      | previous :: earlier =>
        if lexer.indent ≤ column ∧ !previous.isBlock then popIndent lexer previous earlier
        else lexer
      | [] => lexer
    let lexer ← get
    if lexer.indent < column then
      set
        { lexer with
          indents := ⟨lexer.indent, true⟩ :: lexer.indents
          indent := (column : Int) }
      match number with
      | some number => emitBefore number mark kind
      | none => emit mark kind

/-- Ask for one more column of indentation inside the latest block. -/
def deepen : Lexing Unit :=
  modify fun lexer =>
    match lexer.indents with
    | ⟨_, true⟩ :: _ =>
      if lexer.inFlow then lexer
      else
        { lexer with
          indents := ⟨lexer.indent, false⟩ :: lexer.indents
          indent := lexer.indent + 1 }
    | _ => lexer

/-- Return to the indentation of a block, among earlier ones. -/
def undeepenFrom (lexer : Lexer) : List Indent → Lexer
  | [] => lexer
  | previous :: earlier =>
    if previous.isBlock then lexer
    else undeepenFrom (popIndent lexer previous earlier) earlier

def undeepen : Lexing Unit :=
  modify fun lexer => undeepenFrom lexer lexer.indents

/-! ## Possible keys -/

/-- Whether a place is too far back to be a key. -/
def isStale (lexer : Lexer) (key : PossibleKey) : Bool :=
  key.isOpen && !lexer.inFlow &&
    (key.mark.line < lexer.mark.line || key.mark.index + 1024 < lexer.mark.index)

def dropStaleKeys : Lexing Unit := do
  let lexer ← get
  if lexer.keys.any fun key => isStale lexer key && key.required then
    fail .missingColon
  set
    { lexer with
      keys := lexer.keys.map fun key => if isStale lexer key then key.close else key }

def latestIsBlock (lexer : Lexer) : Bool :=
  match lexer.indents with
  | previous :: _ => previous.isBlock
  | [] => false

/-- Remember this place, if a key may start here. -/
def saveKey : Lexing Unit :=
  modify fun lexer =>
    if lexer.keyAllowed then
      let key : PossibleKey :=
        { isOpen := true
          required := !lexer.inFlow && lexer.indent == lexer.column && latestIsBlock lexer
          number := lexer.delivered + lexer.queue.length
          mark := lexer.mark }
      { lexer with keys := key :: lexer.keys.drop 1 }
    else lexer

def lastKey (lexer : Lexer) : PossibleKey :=
  lexer.keys.head?.getD PossibleKey.absent

def closeKey : Lexing Unit :=
  modify fun lexer =>
    match lexer.keys with
    | key :: rest => { lexer with keys := key.close :: rest }
    | [] => lexer

def dropKey : Lexing Unit := do
  let key := lastKey (← get)
  if key.isOpen && key.required then
    fail .missingColon
  closeKey

end Lexing

end HartBoot.Yaml
