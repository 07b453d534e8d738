import HartBoot.Yaml.Lexer.Quoted

/-!
Contract: plain scalars.

Owns:
- reading a scalar without quotes, over as many lines as are indented deeply enough.

A plain scalar ends at `: `, at ` #`, at a document marker in the first column, in a flow
collection at an indicator of it, and in a block at a line that is not indented more than the
block. A marker that is indented is text like any other.

Does not own: whether the scalar is a key (see `HartBoot.Yaml.Lexer`).
-/

namespace HartBoot.Yaml.Lexing

def readPlainWord : Nat → String → Lexing String
  | 0, word => pure word
  | budget + 1, word => do
    let lexer ← get
    if !Character.isGap lexer.next && lexer.atPlain then
      skip 1
      readPlainWord budget (word.push lexer.next)
    else
      return word

/-- Read the breaks and blanks behind a word. `start` is the first character of the scalar, and
`indent` the least indentation of its lines. -/
def readPlainGap (start : Mark) (indent : Int) : Nat → Gap → Lexing Gap
  | 0, gap => pure gap
  | budget + 1, gap => do
    let lexer ← get
    let char := lexer.next
    if Character.isBlank char then
      if !lexer.atLineStart then
        skipBlanks 1
        readPlainGap start indent budget { gap with blanks := gap.blanks.push char }
      else if lexer.column < indent && char == '\t' then
        let _ ← skipTrailing true
        if Character.isLineEnd (← peek) then
          readPlainGap start indent budget gap
        else
          failAt start .tabIndentation
      else
        skipBlanks 1
        readPlainGap start indent budget gap
    else if Character.isBreak char then
      let newline ← readBreak
      if lexer.atLineStart then
        readPlainGap start indent budget { gap with further := gap.further ++ newline }
      else
        readPlainGap start indent budget
          { gap with broken := true, first := gap.first ++ newline, blanks := "" }
    else
      return gap

/-- Read words and the gaps between them. `gap` is what stands in front of the next word. -/
def readPlainText (start : Mark) (indent : Int) : Nat → String → Gap → Lexing String
  | 0, text, _ => pure text
  | budget + 1, text, gap => do
    let lexer ← get
    let char := lexer.next
    if (lexer.mark.column == 0 && lexer.atAnyMarker) || char == '#' then
      return text
    else if lexer.inFlow && char == '-' && Character.isFlow (lexer.ahead 1) then
      fail .dashInFlow
    else
      let word ← readPlainWord lexer.budget ""
      let (text, gap) : String × Gap :=
        if word.isEmpty then (text, gap)
        else (text ++ { gap with broken := lexer.atLineStart }.folded ++ word, {})
      let following ← peek
      if Character.isBlank following || Character.isBreak following then
        let gap ← readPlainGap start indent (← get).budget gap
        let lexer ← get
        if !lexer.inFlow && lexer.column < indent then
          return text
        else
          readPlainText start indent budget text gap
      else
        return text

def readPlain : Lexing Token := do
  undeepen
  let lexer ← get
  let start := lexer.mark
  let indent := lexer.indent + 1
  if lexer.inFlow && lexer.column < indent then
    failAt start .badIndentation
  else
    let text ← readPlainText start indent lexer.budget "" {}
    if (← get).atLineStart then
      allowKey true
    if text.isEmpty then
      failAt start .unexpectedToken
    else
      return ⟨.scalar text, start⟩

end HartBoot.Yaml.Lexing
