/-!
Contract: numbers as they appear in messages.

Owns:
- hexadecimal text, with and without a fixed number of digits, in either letter case;
- decimal text with a least number of digits.

Does not own: reading numbers back (see `HartBoot.Numeral`).
-/

namespace HartBoot.Text

/-- Put `fill` in front of the characters until there are at least `width` of them. -/
def padLeft (width : Nat) (fill : Char) (text : String) : String :=
  String.ofList (List.replicate (width - text.length) fill) ++ text

/-- Put blanks behind the text until it has at least `width` characters. -/
def padRight (width : Nat) (text : String) : String :=
  text ++ String.ofList (List.replicate (width - text.length) ' ')

/-- The lowercase hexadecimal digits of a number, without leading zeros. -/
def hexDigits (number : Nat) : String :=
  String.ofList (Nat.toDigits 16 number)

/-- A number as `0x` and its lowercase hexadecimal digits. -/
def hex (number : Nat) : String :=
  "0x" ++ hexDigits number

/-- A number as `0x` and its uppercase hexadecimal digits. -/
def hexUpper (number : Nat) : String :=
  "0x" ++ (hexDigits number).map Char.toUpper

/-- A number as at least `width` lowercase hexadecimal digits. -/
def hexDigitsPadded (width number : Nat) : String :=
  padLeft width '0' (hexDigits number)

/-- A number as `0x` and at least `width` lowercase hexadecimal digits. -/
def hexPadded (width number : Nat) : String :=
  "0x" ++ hexDigitsPadded width number

/-- An address: `0x` and sixteen hexadecimal digits. -/
def address (word : UInt64) : String :=
  hexPadded 16 word.toNat

/-- A number in decimal, with at least `width` digits. -/
def decimalPadded (width number : Nat) : String :=
  padLeft width '0' (toString number)

end HartBoot.Text
