/-!
Contract: the classes of characters that the YAML grammar distinguishes.

Owns:
- blanks, line breaks and the end of the text, flow indicators, and the characters of names,
  tags and escapes.

The end of the text is represented by the character NUL, which ends a text also when it stands
inside it.

Does not own: Unicode white space, which has no meaning in YAML (see `HartBoot.Text.Blank`).
-/

namespace HartBoot.Yaml.Character

def endOfText : Char := '\x00'

def isBreak (char : Char) : Bool :=
  char == '\n' || char == '\r'

def isBlank (char : Char) : Bool :=
  char == ' ' || char == '\t'

def isLineEnd (char : Char) : Bool :=
  isBreak char || char == endOfText

def isGap (char : Char) : Bool :=
  isBlank char || isLineEnd char

def isFlow (char : Char) : Bool :=
  char == ',' || char == '[' || char == ']' || char == '{' || char == '}'

/-- A letter, digit or hyphen of the ASCII range. -/
def isWord (char : Char) : Bool :=
  char.isAlphanum || char == '-'

/-- A character of a directive name or a tag handle. -/
def isHandle (char : Char) : Bool :=
  isWord char || char == '_'

def isAnchor (char : Char) : Bool :=
  !(isGap char || isFlow char || char == '\uFEFF')

def isUri (char : Char) : Bool :=
  isWord char || "#;/?:@&=+$,_.!~*'()[]%".toList.contains char

def isTag (char : Char) : Bool :=
  isUri char && !isFlow char && char != '!'

def hexValue? (char : Char) : Option Nat :=
  if '0' ≤ char ∧ char ≤ '9' then some (char.toNat - '0'.toNat)
  else if 'a' ≤ char ∧ char ≤ 'f' then some (char.toNat - 'a'.toNat + 10)
  else if 'A' ≤ char ∧ char ≤ 'F' then some (char.toNat - 'A'.toNat + 10)
  else none

/-- The character with a code, if there is one. -/
def ofCode? (code : Nat) : Option Char :=
  if code.isValidChar then some (Char.ofNat code) else none

end HartBoot.Yaml.Character
