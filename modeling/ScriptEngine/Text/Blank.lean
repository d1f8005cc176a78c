/-!
# Blank characters

The characters of Unicode's `White_Space` property, and trimming by a class of characters.

## Main definitions

* `isWhiteSpace` : membership in the Unicode property `White_Space`.
* `isNumericBlank` : the characters that may surround a number written in a string.
* `trimStart`, `trimEnd`, `trim` : removal of leading and trailing characters of a class.
-/

namespace ScriptEngine.Text

/-- Membership in the Unicode property `White_Space`. -/
def isWhiteSpace (c : Char) : Bool :=
  let n := c.toNat
  (0x09 ≤ n && n ≤ 0x0D) || n == 0x20 || n == 0x85 || n == 0xA0 || n == 0x1680 ||
    (0x2000 ≤ n && n ≤ 0x200A) || n == 0x2028 || n == 0x2029 || n == 0x202F || n == 0x205F ||
    n == 0x3000

/-- The blanks around a number in a string: white space and the byte order mark. -/
def isNumericBlank (c : Char) : Bool :=
  isWhiteSpace c || c == '\uFEFF'

/-- Removes the leading characters of a class. -/
def trimStart (p : Char → Bool) (cs : List Char) : List Char :=
  cs.dropWhile p

/-- Removes the trailing characters of a class. -/
def trimEnd (p : Char → Bool) (cs : List Char) : List Char :=
  (cs.reverse.dropWhile p).reverse

/-- Removes the characters of a class on both ends. -/
def trim (p : Char → Bool) (cs : List Char) : List Char :=
  trimEnd p (trimStart p cs)

end ScriptEngine.Text
