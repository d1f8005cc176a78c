import ScriptEngine.Number.Numeral

/-!
# Reading settings

Pieces of JSON text: blanks, words, strings and numbers.  What is wrong with a text is told by its
first fault.

## Main definitions

* `TextFault` : what may be wrong with a text.
* `Reader` : readers of a text.
* `Reader.string`, `Reader.number`, `Reader.boolean` : the readers of values.
* `Reader.otherValue` : the fault of a value that is not of the type that is asked for.
-/

namespace ScriptEngine

/-- What is wrong with a text: it does not follow the grammar, it holds other data than asked for,
or it ends too early. -/
inductive TextFault where
  | malformed | mismatched | truncated
deriving Repr, DecidableEq, Inhabited

/-- Readers of the rest of a text. -/
abbrev Reader := StateT (List Char) (Except TextFault)

namespace Reader

/-- The characters that separate. -/
def isBlank (c : Char) : Bool :=
  c == ' ' || c == '\n' || c == '\t' || c == '\r'

/-- The next character, which stays. -/
def peek : Reader (Option Char) := do
  return (← get).head?

/-- The next character that is no blank, which stays. -/
def peekSolid : Reader (Option Char) := do
  modify (·.dropWhile isBlank)
  peek

/-- Drops the next character. -/
def drop : Reader Unit :=
  modify (·.tail)

/-- The next character. -/
def next : Reader (Option Char) :=
  modifyGet fun cs => (cs.head?, cs.tail)

/-- Reads given characters. -/
def word : List Char → Reader Unit
  | [] => pure ()
  | c :: rest => do
    match ← next with
    | none => throw .truncated
    | some d => if d == c then word rest else throw .malformed

/-! ### Strings -/

/-- The code of four hexadecimal digits.  A text that has not even four bytes left ends too
early. -/
def hexCode (cs : List Char) : Except TextFault (Nat × List Char) :=
  if (cs.take 4).foldl (fun n c => n + c.utf8Size) 0 < 4 then .error .truncated
  else
    match (cs.take 4).mapM hexDigit? with
    | some [a, b, c, d] => .ok (((a * 16 + b) * 16 + c) * 16 + d, cs.drop 4)
    | _ => .error .malformed

/-- The character of an escape by code, whose letter has been read.  A surrogate must be the first
one of a pair. -/
def codeEscape (cs : List Char) : Except TextFault (Char × List Char) := do
  let (high, rest) ← hexCode cs
  if high < 0xD800 || 0xE000 ≤ high then return (Char.ofNat high, rest)
  else if 0xDC00 ≤ high then throw .malformed
  else
    match rest with
    | [] => throw .truncated
    | ['\\'] => throw .truncated
    | '\\' :: 'u' :: rest =>
      let (low, rest) ← hexCode rest
      if 0xDC00 ≤ low && low < 0xE000 then
        return (Char.ofNat (0x10000 + (high - 0xD800) * 0x400 + (low - 0xDC00)), rest)
      else throw .malformed
    | _ => throw .malformed

/-- The character of an escape, whose backslash has been read. -/
def escape : List Char → Except TextFault (Char × List Char)
  | [] => .error .truncated
  | c :: rest =>
    match c with
    | '"' => .ok ('"', rest)
    | '\\' => .ok ('\\', rest)
    | '/' => .ok ('/', rest)
    | 'b' => .ok ('\x08', rest)
    | 'f' => .ok ('\x0c', rest)
    | 'n' => .ok ('\n', rest)
    | 'r' => .ok ('\r', rest)
    | 't' => .ok ('\t', rest)
    | 'u' => codeEscape rest
    | _ => .error .malformed

/-- The characters of a string up to its closing quote; there are at most `fuel` of them. -/
def stringWithin : Nat → List Char → Except TextFault (List Char × List Char)
  | 0, _ => .error .truncated
  | _, [] => .error .truncated
  | fuel + 1, c :: rest =>
    if c == '"' then .ok ([], rest)
    else if c == '\\' then do
      let (d, rest) ← escape rest
      let (ds, rest) ← stringWithin fuel rest
      return (d :: ds, rest)
    else if c.toNat < 0x20 then .error .malformed
    else do
      let (ds, rest) ← stringWithin fuel rest
      return (c :: ds, rest)

/-- A string whose opening quote is next. -/
def string : Reader String := do
  drop
  let cs ← get
  match stringWithin (cs.length + 1) cs with
  | .ok (s, rest) =>
    set rest
    return String.ofList s
  | .error e => throw e

/-! ### Numbers -/

/-- The greatest natural that is read exactly. -/
def maxNatural : Nat := 0xFFFFFFFFFFFFFFFF

/-- Appends digits to a number as long as it is read exactly; the others are left. -/
def appendDigits (n : Nat) : List Char → Nat × List Char
  | [] => (n, [])
  | c :: rest =>
    let m := n * 10 + (c.toNat - '0'.toNat)
    if m > maxNatural then (n, c :: rest) else appendDigits m rest

/-- The digits that come next. -/
def digits : Reader (List Char) :=
  modifyGet fun cs => (cs.takeWhile Char.isDigit, cs.dropWhile Char.isDigit)

/-- Fails if `n · 10 ^ e` is beyond the doubles. -/
def checkRange (n : Nat) (e : Int) : Reader Unit :=
  if n == 0 || e < 0 then pure ()
  else if e > 308 then throw .malformed
  else if (Float.ofNat n * nearestFloat false (Nat.pow 10 e.toNat) 1).isInf then throw .malformed
  else pure ()

/-- The exponent after its mark, with its sign. -/
def exponent : Reader Int := do
  let negative ← match ← peek with
    | some '+' => do drop; pure false
    | some '-' => do drop; pure true
    | _ => pure false
  match ← peek with
  | none => throw .truncated
  | some c =>
    if !c.isDigit then throw .malformed
    else
      let n : Int := Numeral.digitsValue (← digits)
      return if negative then -n else n

/-- Whether a character marks an exponent. -/
def isExponentMark (c : Option Char) : Bool :=
  c == some 'e' || c == some 'E'

/-- What may follow the whole digits of a number `n · 10 ^ e`: a fraction and an exponent.  The
result tells whether there was one. -/
def fractionAndExponent (n : Nat) (e : Int) : Reader Bool := do
  let pointed := (← peek) == some '.'
  let (n, e) ←
    if pointed then do
      drop
      let ds ← digits
      if ds.isEmpty then throw (if (← peek).isNone then .truncated else .malformed)
      let (m, left) := appendDigits n ds
      pure (m, e - ((ds.length - left.length : Nat) : Int))
    else pure (n, e)
  if isExponentMark (← peek) then
    drop
    let shift ← exponent
    checkRange n (e + shift)
    return true
  else
    if pointed || e != 0 then checkRange n e
    return pointed

/-- A number without its sign.  Only a natural of at most 64 bits, written without fraction and
exponent, is a result. -/
def unsigned : Reader (Option Nat) := do
  match ← peek with
  | none => throw .truncated
  | some c =>
    if !c.isDigit then throw .malformed
    else
      let ds ← digits
      if c == '0' && ds.length > 1 then throw .malformed
      let (n, left) := appendDigits 0 ds
      let more ← fractionAndExponent n left.length
      return if more || !left.isEmpty then none else some n

/-- A number whose first character is next. -/
def number : Reader (Option Nat) := do
  if (← peek) == some '-' then
    drop
    let _ ← unsigned
    return none
  else unsigned

/-! ### Values -/

/-- The fault of a value whose first character is next, if it is not of the type that is asked
for. -/
def otherValue {α : Type} : Reader α := do
  match ← peek with
  | some 'n' => do drop; word "ull".toList
  | some 't' => do drop; word "rue".toList
  | some 'f' => do drop; word "alse".toList
  | some '"' => do let _ ← string
  | some '[' => pure ()
  | some '\x7b' => pure ()
  | some c =>
    if c == '-' || c.isDigit then do let _ ← number
    else throw .malformed
  | none => throw .truncated
  throw .mismatched

/-- A boolean. -/
def boolean : Reader Bool := do
  match ← peekSolid with
  | some 't' =>
    drop
    word "rue".toList
    return true
  | some 'f' =>
    drop
    word "alse".toList
    return false
  | _ => otherValue

/-- A natural of at most 64 bits. -/
def natural : Reader Nat := do
  match ← peekSolid with
  | some c =>
    if c == '-' || c.isDigit then
      match ← number with
      | some n => return n
      | none => throw .mismatched
    else otherValue
  | none => throw .truncated

end Reader

end ScriptEngine
