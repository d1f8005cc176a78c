import ScriptEngine.Number.Binary64

/-!
# 32-bit words

The integer operators work on doubles reduced to 32-bit words.

## Main definitions

* `toUInt32`, `toInt32` : the integer part modulo `2 ^ 32`, unsigned and signed.
* `shiftCount` : the five bits of a shift count.
* `leftShift`, `rightShift`, `unsignedRightShift`, `bitOr`, `bitXor`, `bitAnd`, `bitNot` : the
  integer operators as functions on doubles.
-/

namespace ScriptEngine

/-- The integer part toward zero modulo `2 ^ 32`; zero for what has none. -/
def toUInt32 (x : Float) : UInt32 :=
  match (Binary64.ofFloat x).truncated with
  | some t => (t % 4294967296).toNat.toUInt32
  | none => 0

/-- The integer part toward zero as a signed 32-bit word. -/
def toInt32 (x : Float) : Int32 :=
  (toUInt32 x).toInt32

/-- The number of places of a shift: the five low bits. -/
def shiftCount (x : Float) : UInt32 :=
  toUInt32 x &&& 31

/-- The double equal to a signed word. -/
def ofInt32 (w : Int32) : Float :=
  Float.ofInt w.toInt

/-- The double equal to an unsigned word. -/
def ofUInt32 (w : UInt32) : Float :=
  Float.ofNat w.toNat

/-- The left shift of signed words. -/
def leftShift (x y : Float) : Float :=
  ofInt32 (toUInt32 x <<< shiftCount y).toInt32

/-- The right shift that keeps the sign. -/
def rightShift (x y : Float) : Float :=
  ofInt32 (toInt32 x >>> (shiftCount y).toInt32)

/-- The right shift of unsigned words. -/
def unsignedRightShift (x y : Float) : Float :=
  ofUInt32 (toUInt32 x >>> shiftCount y)

/-- The bitwise disjunction of signed words. -/
def bitOr (x y : Float) : Float :=
  ofInt32 (toInt32 x ||| toInt32 y)

/-- The bitwise exclusive disjunction of signed words. -/
def bitXor (x y : Float) : Float :=
  ofInt32 (toInt32 x ^^^ toInt32 y)

/-- The bitwise conjunction of signed words. -/
def bitAnd (x y : Float) : Float :=
  ofInt32 (toInt32 x &&& toInt32 y)

/-- The bitwise complement of a signed word. -/
def bitNot (x : Float) : Float :=
  ofInt32 (~~~ (toInt32 x))

end ScriptEngine
