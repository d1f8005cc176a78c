import ScriptEngine.Number.Shortest
import ScriptEngine.Text.Blank

/-!
# Reading numbers

Decimal and hexadecimal numerals, and the conversion of a string to a number.  Literals and strings
have conversions of their own: each rejects what it does not take and writes zeros next to points
without digits, and leaves the rest to the reader of doubles.

## Main definitions

* `Decimal.toFloat` : the double nearest to a decimal.
* `hexValue?` : the value of hexadecimal digits, accumulated from the left.
* `Numeral.double?` : the reader of doubles, for signed numerals and the words for special values.
* `Numeral.completed` : a text with zeros after the points that no digit follows.
* `literalValue?` : the value of a numeric literal.
* `stringToNumber` : the number that a string denotes, not a number if there is none.
-/

namespace ScriptEngine

namespace Decimal

/-- The double nearest to a decimal.  Magnitudes far outside the range of doubles are infinite or
zero without forming the power of ten. -/
def toFloat (d : Decimal) : Float :=
  if d.digits == 0 then 0.0
  else if d.point > 400 then 1.0 / 0.0
  else if d.point < -400 then 0.0
  else if 0 ≤ d.exponent then nearestFloat false (d.digits * Nat.pow 10 d.exponent.toNat) 1
  else nearestFloat false d.digits (Nat.pow 10 (-d.exponent).toNat)

end Decimal

/-- What is not a number. -/
def notANumber : Float := 0.0 / 0.0

/-- Positive infinity. -/
def positiveInfinity : Float := 1.0 / 0.0

/-- The value of a hexadecimal digit. -/
def hexDigit? (c : Char) : Option Nat :=
  if c.isDigit then some (c.toNat - '0'.toNat)
  else if 'a' ≤ c && c ≤ 'f' then some (c.toNat - 'a'.toNat + 10)
  else if 'A' ≤ c && c ≤ 'F' then some (c.toNat - 'A'.toNat + 10)
  else none

/-- The value of hexadecimal digits, accumulated from the left in double arithmetic. -/
def hexValue? (cs : List Char) (acc : Float) : Option Float :=
  match cs with
  | [] => some acc
  | c :: rest =>
    match hexDigit? c with
    | some d => hexValue? rest (acc * 16.0 + Float.ofNat d)
    | none => none

namespace Numeral

/-- The value of decimal digits. -/
def digitsValue (cs : List Char) : Nat :=
  cs.foldl (fun n c => 10 * n + (c.toNat - '0'.toNat)) 0

/-- The exponent part of a numeral that ends the text: `e` or `E`, a sign, digits.  The empty text
is the exponent zero. -/
def exponent? : List Char → Option Int
  | [] => some 0
  | e :: rest =>
    if e == 'e' || e == 'E' then
      let (negative, digits) := match rest with
        | '-' :: digits => (true, digits)
        | '+' :: digits => (false, digits)
        | digits => (false, digits)
      if digits.isEmpty || !digits.all Char.isDigit then none
      else
        let n : Int := digitsValue digits
        some (if negative then -n else n)
    else none

/-- An unsigned decimal numeral that is the whole text: digits, a fraction, an exponent.  There is a
digit on some side of the point. -/
def unsigned? (cs : List Char) : Option Decimal :=
  let whole := cs.takeWhile Char.isDigit
  let (fraction, tail) := match cs.dropWhile Char.isDigit with
    | '.' :: rest => (rest.takeWhile Char.isDigit, rest.dropWhile Char.isDigit)
    | rest => ([], rest)
  if whole.isEmpty && fraction.isEmpty then none
  else
    (exponent? tail).map fun e =>
      ⟨digitsValue (whole ++ fraction), e - (fraction.length : Int)⟩

/-- Whether a text has a minus, and the text after its sign. -/
def signed : List Char → Bool × List Char
  | '-' :: rest => (true, rest)
  | '+' :: rest => (false, rest)
  | rest => (false, rest)

/-- The values that are written as words, in letters of either case. -/
def named? (text : List Char) : Option Float :=
  let word := String.ofList (text.map Char.toLower)
  if word == "inf" || word == "infinity" then some positiveInfinity
  else if word == "nan" then some notANumber
  else none

/-- The double that a text denotes: a numeral or a word, after an optional sign. -/
def double? (text : List Char) : Option Float :=
  let (negative, magnitude) := signed text
  let value := match unsigned? magnitude with
    | some d => some d.toFloat
    | none => named? magnitude
  value.map fun x => if negative then -x else x

/-! ### Completed texts -/

/-- Writes a zero between every point and the letter that directly follows it. -/
def zeroBefore (letter : Char) : List Char → List Char
  | [] => []
  | c :: rest =>
    if c == '.' && rest.head? == some letter then '.' :: '0' :: zeroBefore letter rest
    else c :: zeroBefore letter rest

/-- Writes a zero after a point that ends the text. -/
def zeroAfter (text : List Char) : List Char :=
  if text.getLast? == some '.' then text ++ ['0'] else text

/-- A text with a zero after each point that an exponent or the end follows. -/
def completed (text : List Char) : List Char :=
  zeroAfter (zeroBefore 'E' (zeroBefore 'e' text))

/-- The characters of decimal numerals. -/
def isNumeralChar (c : Char) : Bool :=
  c.isDigit || ['.', 'e', 'E', '+', '-'].contains c

/-- The characters of signs. -/
def isSign (c : Char) : Bool :=
  c == '+' || c == '-'

/-- The hexadecimal digits of a text that starts with `0x` or `0X`. -/
def hexDigits? : List Char → Option (List Char)
  | '0' :: 'x' :: digits => some digits
  | '0' :: 'X' :: digits => some digits
  | _ => none

end Numeral

/-- The value of a numeric literal.  A zero is written in front of a point that begins it. -/
def literalValue? (text : List Char) : Option Float :=
  match Numeral.hexDigits? text with
  | some digits => hexValue? digits 0.0
  | none =>
    Numeral.double? (Numeral.completed (if text.head? == some '.' then '0' :: text else text))

/-- The number denoted by a text without surrounding blanks. -/
def trimmedToNumber (text : List Char) : Float :=
  if text.isEmpty then 0.0
  else
    match Numeral.hexDigits? text with
    | some digits => if digits.isEmpty then notANumber else (hexValue? digits 0.0).getD notANumber
    | none =>
      if text == "Infinity".toList || text == "+Infinity".toList then positiveInfinity
      else if text == "-Infinity".toList then -positiveInfinity
      else if !text.all Numeral.isNumeralChar then notANumber
      -- After any number of signs, a point alone has no digits.
      else if text.dropWhile Numeral.isSign == ['.'] then notANumber
      else (Numeral.double? (Numeral.completed text)).getD notANumber

/-- The number that a string denotes, blanks around it left out. -/
def stringToNumber (s : String) : Float :=
  trimmedToNumber (Text.trim Text.isNumericBlank s.toList)

end ScriptEngine
