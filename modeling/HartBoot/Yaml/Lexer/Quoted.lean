import HartBoot.Yaml.Lexer.State

/-!
Contract: quoted scalars.

Owns:
- reading the text between single or double quotes, with its escapes and folded lines.

Inside single quotes only a doubled quote has a meaning. Inside double quotes a backslash starts
an escape or joins two lines. A line break between words becomes a space, each further one a line
break of the value.

Does not own: whether the scalar is a key (see `HartBoot.Yaml.Lexer`).
-/

namespace HartBoot.Yaml.Lexing

/-- Breaks and blanks between two words of a scalar. -/
structure Gap where
  /-- Whether a line has ended. -/
  broken : Bool := false
  /-- The first line break, if it counts. -/
  first : String := ""
  /-- The line breaks behind it. -/
  further : String := ""
  /-- The blanks, while no line has ended. -/
  blanks : String := ""

/-- The text that stands for breaks and blanks between two words. -/
def Gap.folded (gap : Gap) : String :=
  if gap.broken then
    if gap.first.isEmpty then gap.further
    else if gap.further.isEmpty then " "
    else gap.further
  else gap.blanks

/-- The character of an escape that is written with one letter. -/
def simpleEscape? : Char → Option Char
  | '0' => some '\x00'
  | 'a' => some '\x07'
  | 'b' => some '\x08'
  | 't' => some '\t'
  | '\t' => some '\t'
  | 'n' => some '\n'
  | 'v' => some '\x0B'
  | 'f' => some '\x0C'
  | 'r' => some '\r'
  | 'e' => some '\x1B'
  | ' ' => some ' '
  | '"' => some '"'
  | '/' => some '/'
  | '\\' => some '\\'
  | 'N' => some '\u0085'
  | '_' => some '\u00A0'
  | 'L' => some '\u2028'
  | 'P' => some '\u2029'
  | _ => none

/-- The number of hexadecimal digits behind the letter of an escape. -/
def escapeDigits? : Char → Option Nat
  | 'x' => some 2
  | 'u' => some 4
  | 'U' => some 8
  | _ => none

def hexNumber? (chars : List Char) : Option Nat :=
  chars.foldl
    (fun number char =>
      match number, Character.hexValue? char with
      | some number, some digit => some (16 * number + digit)
      | _, _ => none)
    (some 0)

/-- Read an escape; `start` is the opening quote. -/
def readEscape (start : Mark) : Lexing Char := do
  let letter := (← get).ahead 1
  match simpleEscape? letter, escapeDigits? letter with
  | some char, _ => do
    skip 2
    return char
  | none, some count => do
    skip 2
    let digits := (← get).rest.take count
    if digits.length < count then
      failAt start .escape
    else
      match (hexNumber? digits).bind Character.ofCode? with
      | some char => do
        skip count
        return char
      | none => failAt start .escape
  | none, none => failAt start .escape

/-- Read one word between quotes. The answer is the word, and whether an escaped line break
follows it. -/
def readQuotedWord (single : Bool) (start : Mark) : Nat → String → Lexing (String × Bool)
  | 0, word => pure (word, false)
  | budget + 1, word => do
    let lexer ← get
    let char := lexer.next
    if Character.isGap char then
      return (word, false)
    else if single then
      if char == '\'' then
        if lexer.ahead 1 == '\'' then
          skip 2
          readQuotedWord single start budget (word.push '\'')
        else
          return (word, false)
      else
        skip 1
        readQuotedWord single start budget (word.push char)
    else if char == '"' then
      return (word, false)
    else if char == '\\' then
      if Character.isBreak (lexer.ahead 1) then
        skip 1
        skipBreak
        return (word, true)
      else
        let escaped ← readEscape start
        readQuotedWord single start budget (word.push escaped)
    else
      skip 1
      readQuotedWord single start budget (word.push char)

def readQuotedGap : Nat → Gap → Lexing Gap
  | 0, gap => pure gap
  | budget + 1, gap => do
    let lexer ← get
    let char := lexer.next
    if Character.isBlank char then
      if gap.broken then
        if char == '\t' && lexer.column < lexer.indent then
          fail .tabIndentation
        else
          skipBlanks 1
          readQuotedGap budget gap
      else
        skipBlanks 1
        readQuotedGap budget { gap with blanks := gap.blanks.push char }
    else if Character.isBreak char then
      let newline ← readBreak
      if gap.broken then
        readQuotedGap budget { gap with further := gap.further ++ newline }
      else
        readQuotedGap budget { gap with broken := true, first := newline, blanks := "" }
    else
      return gap

def readQuotedText (single : Bool) (start : Mark) : Nat → String → Lexing String
  | 0, _ => failAt start .unclosedQuote
  | budget + 1, text => do
    let lexer ← get
    if lexer.mark.column == 0 && lexer.atAnyMarker then
      failAt start .markerInsideQuote
    else if lexer.next == Character.endOfText then
      failAt start .unclosedQuote
    else if lexer.column < lexer.indent then
      failAt start .badIndentation
    else
      let (word, joined) ← readQuotedWord single start lexer.budget ""
      let text := text ++ word
      if (← peek) == (if single then '\'' else '"') then
        return text
      else
        let gap ← readQuotedGap (← get).budget { broken := joined }
        readQuotedText single start budget (text ++ gap.folded)

/-- Whether the character behind a closing quote may stand there. -/
def mayFollowQuote (lexer : Lexer) (start : Mark) : Bool :=
  let char := lexer.next
  Character.isLineEnd char ||
    (if lexer.inFlow then char == ',' || char == '}' || char == ']' || char == ':'
     else char == ':' && start.line == lexer.mark.line)

def readQuoted (single : Bool) : Lexing Token := do
  let start := (← get).mark
  skip 1
  let text ← readQuotedText single start (← get).budget ""
  skip 1
  let _ ← skipTrailing true
  if mayFollowQuote (← get) start then
    return ⟨.scalar text, start⟩
  else
    fail .contentAfterQuote

end HartBoot.Yaml.Lexing
