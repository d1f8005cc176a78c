import ScriptEngine.Run.Property

/-!
# Conversions

The conversions of values that may run a script: an object becomes primitive by the methods
`valueOf` and `toString`.

## Main definitions

* `Hint` : which of the two methods comes first.
* `Run.toPrimitive`, `Run.toNumber`, `Run.toText`, `Run.toObject` : the conversions.
* `Run.convert` : the conversion to a representation.
-/

namespace ScriptEngine

/-- What a primitive value is wanted for. -/
inductive Hint where
  | default | string | number
deriving Repr, DecidableEq, Inhabited

/-- The methods that make an object primitive, in the order in which they are tried. -/
def Hint.methods : Hint → List String
  | .string => ["toString", "valueOf"]
  | .default | .number => ["valueOf", "toString"]

namespace Run

/-- Tries one method that makes an object primitive. -/
def tryMethod (call : Caller) (r : Ref) (name : String) : Run (Option Value) := do
  let f ← onHeap (·.get r name)
  if ← onHeap (·.isCallable f) then
    let v ← call f (.object r) []
    return if v.isObject then none else some v
  else return none

/-- The primitive value of a value. -/
def toPrimitive (call : Caller) (v : Value) (hint : Hint) : Run Value :=
  match v with
  | .object r => do
    match ← Exec.firstResult (tryMethod call r) hint.methods with
    | some p => return p
    | none => raise .typeError "Cannot convert object to primitive value"
  | v => pure v

/-- The number of a value. -/
def toNumber (call : Caller) (v : Value) : Run Float := do
  return (← toPrimitive call v .number).primitiveToNumber

/-- The text of a value. -/
def toText (call : Caller) (v : Value) : Run String := do
  return (← toPrimitive call v .string).primitiveToText

/-- The object of a value; a primitive value is wrapped. -/
def toObject (v : Value) : Run Value :=
  match v with
  | .undefined | .null => raise .typeError s!"'{v.primitiveToText}' cannot be converted to object"
  | v => new fun h => (h.wrap? v).getD (0, h)

/-- The result in a representation that stands for a value. -/
def convert (call : Caller) (ρ : Rep) (v : Value) : Run ρ.Carrier :=
  match ρ with
  | .double => toNumber call v
  | .boolean => pure v.toBoolean
  | .string => toText call v
  | .boxed => pure v

end Run

end ScriptEngine
