import ScriptEngine.Text.Range
import ScriptEngine.Text.PrintableTable

/-!
# Quoted text

A string between double quotes, with every character that would not show escaped.

## Main definitions

* `isPrintable` : whether a character stands for itself in quoted text.
* `quoted` : the quoted form of a string.
-/

namespace ScriptEngine.Text

/-- A character that shows: the space, or any other one that is neither a control, format,
private-use, unassigned, separator or ignorable character nor a mark that extends a grapheme. -/
def isPrintable (c : Char) : Bool :=
  c == ' ' || !(inRanges c.toNat unprintableRanges || inRanges c.toNat graphemeExtendRanges)

/-- The escape of a character by its code in hexadecimal digits. -/
def codeEscape (c : Char) : List Char :=
  '\\' :: 'u' :: '\x7b' :: Nat.toDigits 16 c.toNat ++ ['\x7d']

/-- The spelling of one character in quoted text. -/
def quotedChar (c : Char) : List Char :=
  match c with
  | '\x00' => ['\\', '0']
  | '\t' => ['\\', 't']
  | '\r' => ['\\', 'r']
  | '\n' => ['\\', 'n']
  | '"' => ['\\', '"']
  | '\\' => ['\\', '\\']
  | c => if isPrintable c then [c] else codeEscape c

/-- The quoted form of a string. -/
def quoted (s : String) : String :=
  String.ofList ('"' :: s.toList.flatMap quotedChar ++ ['"'])

end ScriptEngine.Text
