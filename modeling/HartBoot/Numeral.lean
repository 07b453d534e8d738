import HartBoot.Text.Blank

/-!
Contract: numbers and truth values as a configuration writes them.

Owns:
- `Numeral.read?`, an unsigned 64-bit number: `0x` hexadecimal, a leading `0` octal, otherwise
  decimal;
- `Numeral.readBool?`, a truth value: `true`, `false`, or a number.

Blanks around the value do not count. A single `+` may stand in front of the digits, behind the
mark of the base. A number that does not fit 64 bits is no number.

Does not own: what a value is used for.
-/

namespace HartBoot.Numeral

/-- The value of a character as a digit, in any base up to sixteen. -/
def digitValue? (char : Char) : Option Nat :=
  if '0' ≤ char ∧ char ≤ '9' then some (char.toNat - '0'.toNat)
  else if 'a' ≤ char ∧ char ≤ 'f' then some (char.toNat - 'a'.toNat + 10)
  else if 'A' ≤ char ∧ char ≤ 'F' then some (char.toNat - 'A'.toNat + 10)
  else none

/-- The value of a character as a digit of one base. -/
def digitIn? (base : Nat) (char : Char) : Option Nat :=
  (digitValue? char).filter (· < base)

/-- The number that digits denote behind a number that was read before. -/
def digitsFrom? (base : Nat) : Nat → List Char → Option Nat
  | number, [] => some number
  | number, char :: rest =>
    match digitIn? base char with
    | some digit => digitsFrom? base (number * base + digit) rest
    | none => none

/-- The characters behind a `+`, if they start with one. -/
def dropPlus : List Char → List Char
  | '+' :: rest => rest
  | chars => chars

/-- The number of an optional `+` and one or more digits. -/
def magnitude? (base : Nat) (chars : List Char) : Option Nat :=
  match dropPlus chars with
  | [] => none
  | digits => digitsFrom? base 0 digits

/-- The number that a value without blanks around it denotes, however large. -/
def unbounded? : List Char → Option Nat
  | '0' :: 'x' :: digits => magnitude? 16 digits
  | '0' :: 'X' :: digits => magnitude? 16 digits
  | '0' :: next :: rest => magnitude? 8 (next :: rest)
  | chars => magnitude? 10 chars

/-- The number that a value denotes, if it fits 64 bits. -/
def read? (text : String) : Option UInt64 :=
  match unbounded? (Text.trimBlanks text.toList) with
  | some number => if number < UInt64.size then some (UInt64.ofNat number) else none
  | none => none

/-- Whether some characters are a lowercase word, in any case of their letters. -/
def isWord (word : String) (chars : List Char) : Bool :=
  chars.map Char.toLower == word.toList

/-- The truth value that a value denotes; of the numbers, only zero is false. -/
def readBool? (text : String) : Option Bool :=
  let chars := Text.trimBlanks text.toList
  if isWord "true" chars then some true
  else if isWord "false" chars then some false
  else (read? text).map (· != 0)

end HartBoot.Numeral
