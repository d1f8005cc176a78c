import ScriptEngine.Analysis.ValueType
import ScriptEngine.Value

/-!
# Representations

How a result is held while code runs: as a bare number, boolean or string where its type is known
beforehand, and as a value otherwise.

## Main definitions

* `Rep` : the representations.
* `Rep.Carrier` : what a result in a representation is.
* `Rep.box` : the value that such a result stands for.
* `Rep.ofPrimitive` : the result that stands for a value, conversions running no script.
* `Rep.ofValueType`, `Rep.valueType` : the passage from and to static types.
-/

namespace ScriptEngine

/-- How a result is held. -/
inductive Rep where
  | double | boolean | string | boxed
deriving Repr, DecidableEq, Inhabited

namespace Rep

/-- The results in a representation. -/
abbrev Carrier : Rep → Type
  | .double => Float
  | .boolean => Bool
  | .string => String
  | .boxed => Value

/-- The value that a result stands for. -/
def box : (ρ : Rep) → ρ.Carrier → Value
  | .double, x => .number x
  | .boolean, b => .boolean b
  | .string, s => .string s
  | .boxed, v => v

/-- The result that stands for a value, an object being taken for what its primitive conversions
give. -/
def ofPrimitive : (ρ : Rep) → Value → ρ.Carrier
  | .double, v => v.primitiveToNumber
  | .boolean, v => v.toBoolean
  | .string, v => v.primitiveToText
  | .boxed, v => v

/-- What a slot holds before it is written. -/
def initial : (ρ : Rep) → ρ.Carrier
  | .double => notANumber
  | .boolean => false
  | .string => ""
  | .boxed => .undefined

/-- The representation of a variable or expression with a static type. -/
def ofValueType : ValueType → Rep
  | .double => .double
  | .boolean => .boolean
  | .string => .string
  | .unset | .unknown | .object => .boxed

/-- The static type that a representation guarantees. -/
def valueType : Rep → ValueType
  | .double => .double
  | .boolean => .boolean
  | .string => .string
  | .boxed => .unknown

end Rep

end ScriptEngine
