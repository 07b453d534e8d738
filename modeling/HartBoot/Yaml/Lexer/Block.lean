import HartBoot.Yaml.Lexer.State

/-!
Contract: block scalars, the lines behind `|` and `>`.

Owns:
- reading the header of a block scalar, its indentation, its lines, and the line breaks at its
  end.

Does not own: flow scalars (see `HartBoot.Yaml.Lexer.Plain` and `HartBoot.Yaml.Lexer.Quoted`).
-/

namespace HartBoot.Yaml.Lexing

/-- What becomes of the line breaks at the end of a block scalar. -/
inductive Chomping where
  | strip
  | clip
  | keep
  deriving DecidableEq, Repr

/-- The indicators behind `|` or `>`. -/
structure BlockHeader where
  chomping : Chomping := .clip
  /-- The indentation that was asked for; zero if it is to be found out. -/
  increment : Nat := 0

/-- Read the sign that says what becomes of the line breaks, if there is one. -/
def readChomping : Lexing (Option Chomping) := do
  let char ← peek
  if char == '+' then
    skip 1
    return some .keep
  else if char == '-' then
    skip 1
    return some .strip
  else
    return none

/-- Read the digit that asks for an indentation, if there is one. -/
def readIncrement (start : Mark) : Lexing (Option Nat) := do
  let char ← peek
  if char == '0' then
    failAt start .blockHeader
  else if char.isDigit then
    skip 1
    return some (char.toNat - '0'.toNat)
  else
    return none

def readBlockHeader (start : Mark) : Lexing BlockHeader := do
  match ← readChomping with
  | some chomping => do
    let increment ← readIncrement start
    return { chomping := chomping, increment := increment.getD 0 }
  | none =>
    match ← readIncrement start with
    | some increment => do
      let chomping ← readChomping
      return { chomping := chomping.getD .clip, increment := increment }
    | none => return {}

def skipSpacesTo (column : Nat) : Lexing Unit := do
  let spaces ← upcoming (· == ' ')
  skipBlanks (min spaces.length (column - (← get).mark.column))

/-- Pass the indentation of the next line with content. The answer is the breaks of the empty
lines before it. -/
def skipEmptyLines (indent : Nat) : Nat → String → Lexing String
  | 0, breaks => pure breaks
  | budget + 1, breaks => do
    skipSpacesTo indent
    if Character.isBreak (← peek) then
      let newline ← readBreak
      skipEmptyLines indent budget (breaks ++ newline)
    else
      return breaks

/-- Pass the spaces in front of the first line with content. The answer is the deepest column
that was reached, and the breaks of the empty lines before it. -/
def findIndent : Nat → Nat → String → Lexing (Nat × String)
  | 0, deepest, breaks => pure (deepest, breaks)
  | budget + 1, deepest, breaks => do
    let _ ← readBlanks (· == ' ')
    let lexer ← get
    let deepest := max deepest lexer.mark.column
    if Character.isBreak lexer.next then
      let newline ← readBreak
      findIndent budget deepest (breaks ++ newline)
    else
      return (deepest, breaks)

/-- The lines of a block scalar that have been read. -/
structure BlockText where
  text : String := ""
  /-- The break of the latest line. -/
  first : String := ""
  /-- The breaks of the empty lines behind it. -/
  further : String := ""
  /-- Whether the latest line starts with a blank. -/
  indented : Bool := false

/-- What stands between the lines that have been read and a line that starts with `char`. -/
def BlockText.joint (read : BlockText) (literal : Bool) (char : Char) : String :=
  if !literal && !read.first.isEmpty && !read.indented && !Character.isBlank char then
    if read.further.isEmpty then " " else read.further
  else read.first ++ read.further

def readBlockLines (literal : Bool) (indent : Nat) : Nat → BlockText → Lexing BlockText
  | 0, read => pure read
  | budget + 1, read => do
    let lexer ← get
    let char := lexer.next
    if lexer.mark.column != indent || char == Character.endOfText ||
        (indent == 0 && lexer.atMarker '.') then
      return read
    else
      let line ← upcoming fun char => !Character.isLineEnd char
      skipBlanks line.length
      let text := read.text ++ read.joint literal char ++ String.ofList line
      let indented := Character.isBlank char
      if (← peek) == Character.endOfText then
        return { text := text, indented := indented }
      else
        let newline ← readBreak
        let breaks ← skipEmptyLines indent (← get).budget ""
        readBlockLines literal indent budget
          { text := text, first := newline, further := breaks, indented := indented }

/-- The value of a block scalar that ends with the text before it has a line with content. -/
def emptyBlockValue (chomping : Chomping) (sameLine : Bool) (first further : String) : String :=
  match chomping with
  | .strip => ""
  | .clip => if sameLine then "" else first
  | .keep => if sameLine then "" else if further.isEmpty then first else further

/-- The value of a block scalar. `unended` says that its last line has no break. -/
def BlockText.value (read : BlockText) (chomping : Chomping) (unended : Bool) : String :=
  match chomping with
  | .strip => read.text
  | .clip => read.text ++ read.first ++ (if unended then "\n" else "")
  | .keep => read.text ++ read.first ++ (if unended then "\n" else "") ++ read.further

/-- Read a block scalar with its header. Its place is that of its first content; one without
content stands at its header. -/
def readBlock (literal : Bool) : Lexing Token := do
  let start := (← get).mark
  skip 1
  undeepen
  let header ← readBlockHeader start
  let _ ← skipTrailing true
  if !Character.isLineEnd (← peek) then
    failAt start .blockHeader
  else
    let headerBreak ← if Character.isBreak (← peek) then readBreak else pure ""
    if (← peek) == '\t' then
      failAt start .tabIndentation
    else
      let outer := (← get).indent
      let asked : Nat := if header.increment == 0 then 0 else outer.toNat + header.increment
      let (indent, breaks) ←
        if asked == 0 then do
          let (deepest, breaks) ← findIndent (← get).budget 0 ""
          let indent := max deepest (outer + 1).toNat
          pure (if 0 < outer then max indent 1 else indent, breaks)
        else do
          let breaks ← skipEmptyLines asked (← get).budget ""
          pure (asked, breaks)
      let lexer ← get
      let first := lexer.mark
      if lexer.next == Character.endOfText then
        let value := emptyBlockValue header.chomping (first.line == start.line) headerBreak breaks
        return ⟨.scalar value, start⟩
      else if first.column < indent && outer < lexer.column then
        fail .blockIndentation
      else
        let read ← readBlockLines literal indent lexer.budget { further := breaks }
        let lexer ← get
        let unended := lexer.next == Character.endOfText && max indent 1 ≤ lexer.mark.column
        return ⟨.scalar (read.value header.chomping unended), first⟩

end HartBoot.Yaml.Lexing
