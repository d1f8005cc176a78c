import ScriptEngine.Number.Style
import ScriptEngine.Number.Numeral
import ScriptEngine.Text.Units

/-!
# Values

What expressions yield.  A primitive value is what it says; an object is a reference into the heap.

## Main definitions

* `Value` : the values.
* `Value.toBoolean`, `Value.primitiveToNumber`, `Value.primitiveToText` : the conversions that run
  no script.
* `Value.strictlyEqual`, `Value.sameValue`, `Value.looselyEqual` : the equalities that run no
  script.
* `numberLessThan` : the order of numbers, undefined if one of them is not a number.
-/

namespace ScriptEngine

/-- The place of an object in the heap. -/
abbrev Ref := Nat

/-- Values of scripts. -/
inductive Value where
  | undefined
  | null
  | boolean (b : Bool)
  | number (x : Float)
  | string (s : String)
  | object (ref : Ref)
deriving Repr, Inhabited

/-- Whether a number counts as true. -/
def numberToBoolean (x : Float) : Bool :=
  !(x == 0.0 || x.isNaN)

/-- The order of two numbers; nothing if one of them is not a number. -/
def numberLessThan (x y : Float) : Option Bool :=
  if x.isNaN || y.isNaN then none else some (x < y)

/-- Whether the sign bit of a number is set. -/
def hasSignBit (x : Float) : Bool :=
  x.toBits.toNat / Nat.pow 2 63 == 1

namespace Value

/-- Whether a value is `undefined` or `null`. -/
def isNullish : Value → Bool
  | .undefined | .null => true
  | _ => false

/-- Whether a value is an object. -/
def isObject : Value → Bool
  | .object _ => true
  | _ => false

/-- Whether a value counts as true. -/
def toBoolean : Value → Bool
  | .undefined | .null => false
  | .boolean b => b
  | .number x => numberToBoolean x
  | .string s => !s.isEmpty
  | .object _ => true

/-- The number of a primitive value; an object is not a number. -/
def primitiveToNumber : Value → Float
  | .undefined => notANumber
  | .null => 0.0
  | .boolean b => if b then 1.0 else 0.0
  | .number x => x
  | .string s => stringToNumber s
  | .object _ => notANumber

/-- The text of a primitive value; all objects have the same one. -/
def primitiveToText : Value → String
  | .undefined => "undefined"
  | .null => "null"
  | .boolean b => if b then "true" else "false"
  | .number x => numberText x
  | .string s => s
  | .object _ => "[object Object]"

/-- The operator `===`: the same primitive or the same object.  What is not a number differs from
itself. -/
def strictlyEqual : Value → Value → Bool
  | .undefined, .undefined => true
  | .null, .null => true
  | .boolean a, .boolean b => a == b
  | .number x, .number y => x == y
  | .string s, .string t => s == t
  | .object r, .object q => r == q
  | _, _ => false

/-- Equality that tells the two zeros apart and finds what is not a number equal to itself. -/
def sameValue : Value → Value → Bool
  | .number x, .number y =>
    if x.isNaN && y.isNaN then true else x == y && hasSignBit x == hasSignBit y
  | a, b => a.strictlyEqual b

/-- The operator `==` on primitive values: `undefined` and `null` equal each other only, two strings
are compared as texts, and everything else as numbers. -/
def looselyEqual (a b : Value) : Bool :=
  match a.isNullish, b.isNullish with
  | true, true => true
  | true, false => false
  | false, true => false
  | false, false =>
    match a, b with
    | .string s, .string t => s == t
    | _, _ => a.primitiveToNumber == b.primitiveToNumber

end Value

end ScriptEngine
