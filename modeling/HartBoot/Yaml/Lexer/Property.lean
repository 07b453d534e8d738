import HartBoot.Yaml.Lexer.State

/-!
Contract: directives, tags, anchors and aliases.

Owns:
- reading each of them, with the checks of its form.

The prefix of a tag directive and the suffix of a tag are checked, but only the presence of a
suffix is kept: no value is interpreted by its tag.

Does not own: which handles and anchors have been declared (see `HartBoot.Yaml.Stream`).
-/

namespace HartBoot.Yaml.Lexing

/-- Read the name behind the indicator of an anchor or alias. -/
def readAnchorName : Lexing String := do
  let start := (← get).mark
  skip 1
  let name ← readWhile Character.isAnchor
  if name.isEmpty then
    failAt start .anchorName
  else
    return String.ofList name

/-- The number of bytes of a character whose UTF-8 form starts with a byte. -/
def escapedWidth? (byte : Nat) : Option Nat :=
  if byte < 0x80 then some 1
  else if byte < 0xC0 then none
  else if byte < 0xE0 then some 2
  else if byte < 0xF0 then some 3
  else if byte < 0xF8 then some 4
  else none

/-- Read the two digits of a byte behind a `%`. -/
def readEscapedByte (start : Mark) : Lexing Nat := do
  let lexer ← get
  match lexer.next == '%', Character.hexValue? (lexer.ahead 1),
      Character.hexValue? (lexer.ahead 2) with
  | true, some high, some low => do
    skip 3
    return 16 * high + low
  | _, _, _ => failAt start .tagEscape

def readEscapedRest (start : Mark) : Nat → Nat → Lexing Nat
  | 0, code => pure code
  | count + 1, code => do
    let byte ← readEscapedByte start
    if 0x80 ≤ byte ∧ byte < 0xC0 then
      readEscapedRest start count (256 * code + byte)
    else
      failAt start .tagEscape

def readEscapedChar (start : Mark) : Lexing Unit := do
  let byte ← readEscapedByte start
  match escapedWidth? byte with
  | none => failAt start .tagEscape
  | some width => do
    let code ← readEscapedRest start (width - 1) byte
    if (Character.ofCode? code).isNone then
      failAt start .tagEscape

/-- Read the characters of a tag that belong to a class. The answer is their number. -/
def readTagChars (start : Mark) (belongs : Char → Bool) : Nat → Nat → Lexing Nat
  | 0, count => pure count
  | budget + 1, count => do
    let char ← peek
    if !belongs char then
      return count
    else
      if char == '%' then readEscapedChar start else skip 1
      readTagChars start belongs budget (count + 1)

/-- Read a tag handle; in a directive it has to be closed. -/
def readTagHandle (inDirective : Bool) (start : Mark) : Lexing String := do
  if (← peek) != '!' then
    failAt start .tagHandle
  else
    skip 1
    let letters ← readWhile Character.isHandle
    let handle := "!" ++ String.ofList letters
    if (← peek) == '!' then
      skip 1
      return handle ++ "!"
    else if inDirective && !letters.isEmpty then
      failAt start .tagHandle
    else
      return handle

/-- Whether a handle is closed by a second `!`. -/
def isClosedHandle (handle : String) : Bool :=
  let chars := handle.toList
  2 ≤ chars.length && chars.getLast? == some '!'

def readTagSuffix (start : Mark) (handle : String) : Lexing Token.Kind := do
  let head := if isClosedHandle handle then 0 else handle.length
  let count ← readTagChars start Character.isTag (← get).budget head
  if count == 0 then
    failAt start .tagSuffix
  else if isClosedHandle handle then
    return .tag handle "suffix"
  else if count == 1 then
    return .tag "" "!"
  else
    return .tag "!" "suffix"

def readVerbatimTag (start : Mark) : Lexing Token.Kind := do
  skip 2
  let _ ← readTagChars start Character.isUri (← get).budget 0
  if (← peek) != '>' then
    failAt start .tagSuffix
  else
    skip 1
    return .tag "" "suffix"

def readTag : Lexing Token := do
  let lexer ← get
  let start := lexer.mark
  let kind ←
    if lexer.ahead 1 == '<' then readVerbatimTag start
    else do
      let handle ← readTagHandle false start
      readTagSuffix start handle
  let lexer ← get
  if Character.isGap lexer.next || (lexer.inFlow && Character.isFlow lexer.next) then
    return ⟨kind, start⟩
  else
    failAt start .tagRest

def readVersionNumber (start : Mark) : Lexing Unit := do
  let digits ← readWhile Char.isDigit
  if digits.isEmpty || 9 < digits.length then
    failAt start .directiveVersion

/-- Read the version behind `%YAML`. -/
def readVersion (start : Mark) : Lexing Token.Kind := do
  let _ ← readBlanks Character.isBlank
  readVersionNumber start
  if (← peek) != '.' then
    failAt start .directiveVersion
  else
    skip 1
    readVersionNumber start
    return .versionDirective

def readTagPrefix (start : Mark) : Lexing Unit := do
  let char ← peek
  if char == '!' then
    skip 1
  else if !Character.isTag char then
    failAt start .tagHandle
  else if char == '%' then
    readEscapedChar start
  else
    skip 1
  let _ ← readTagChars start Character.isUri (← get).budget 0

/-- Read the handle and prefix behind `%TAG`. -/
def readTagDeclaration (start : Mark) : Lexing Token.Kind := do
  let _ ← readBlanks Character.isBlank
  let handle ← readTagHandle true start
  let _ ← readBlanks Character.isBlank
  readTagPrefix start
  if Character.isGap (← peek) then
    return .tagDirective handle
  else
    failAt start .directiveRest

/-- Read a directive and the end of its line. -/
def readDirective : Lexing Token := do
  let start := (← get).mark
  skip 1
  let name ← readWhile Character.isHandle
  if name.isEmpty || !Character.isGap (← peek) then
    failAt start .directiveName
  else
    let kind ←
      if name == "YAML".toList then readVersion start
      else if name == "TAG".toList then readTagDeclaration start
      else do
        skipLine
        pure (.tagDirective "")
    let _ ← skipTrailing true
    if Character.isLineEnd (← peek) then
      skipBreak
      return ⟨kind, start⟩
    else
      failAt start .directiveRest

end HartBoot.Yaml.Lexing
