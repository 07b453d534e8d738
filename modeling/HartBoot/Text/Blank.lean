/-!
Contract: the white space that may surround a value.

Owns:
- `isBlank`, the characters with the Unicode property `White_Space`;
- `trimBlanks`, a list of characters without the blanks at both ends.

Does not own: white space inside a YAML document, which is blank and tab only.
-/

namespace HartBoot.Text

/-- The characters with the Unicode property `White_Space`. -/
def isBlank (char : Char) : Bool :=
  let code := char.toNat
  (0x09 ≤ code && code ≤ 0x0D) || code == 0x20 || code == 0x85 || code == 0xA0 ||
    code == 0x1680 || (0x2000 ≤ code && code ≤ 0x200A) || code == 0x2028 || code == 0x2029 ||
    code == 0x202F || code == 0x205F || code == 0x3000

/-- The characters without the blanks in front of them and behind them. -/
def trimBlanks (chars : List Char) : List Char :=
  ((chars.dropWhile isBlank).reverse.dropWhile isBlank).reverse

end HartBoot.Text
