import ScriptEngine.Run.Conversion

/-!
# Operators

What the operators do with values, and with results in given representations.

## Main definitions

* `Run.looselyEqual`, `Run.lessThan`, `Run.instanceOf` : comparisons that may run a script.
* `Run.binary`, `Run.unary` : the operators on any values.
* `BinaryForm.apply`, `UnaryForm.apply` : the operators on results.
-/

namespace ScriptEngine

namespace Run

/-- The operator `==`.  An object is compared with a primitive value by its own primitive value. -/
def looselyEqual (call : Caller) (a b : Value) : Run Bool :=
  match a, b with
  | .object r, .object q => pure (r == q)
  | .object _, b =>
    if b.isNullish then pure false
    else do return (← toPrimitive call a .default).looselyEqual b
  | a, .object _ =>
    if a.isNullish then pure false
    else do return a.looselyEqual (← toPrimitive call b .default)
  | a, b => pure (a.looselyEqual b)

/-- Whether one value is less than another one; nothing if what is not a number is involved.  The
operand that stood left in the script becomes primitive first. -/
def lessThan (call : Caller) (a b : Value) (leftFirst : Bool) : Run (Option Bool) := do
  let (p, q) ←
    if leftFirst then do
      let p ← toPrimitive call a .number
      let q ← toPrimitive call b .number
      pure (p, q)
    else do
      let q ← toPrimitive call b .number
      let p ← toPrimitive call a .number
      pure (p, q)
  match p, q with
  | .string s, .string t => return some (Text.compare16 s t).isLT
  | p, q => return numberLessThan p.primitiveToNumber q.primitiveToNumber

/-- Whether two values are in a relation. -/
def compare (call : Caller) (r : Relation) (x y : Value) : Run Bool := do
  let less ← if r.isSwapped then lessThan call y x false else lessThan call x y true
  return less == some r.expected

/-- Whether two values are equal as an operator says. -/
def equal (call : Caller) (e : Equality) (x y : Value) : Run Bool := do
  let same ← if e.strict then pure (x.strictlyEqual y) else looselyEqual call x y
  return same != e.negated

/-- The operator `in`. -/
def membership (call : Caller) (x y : Value) : Run Bool :=
  match y with
  | .object _ => do
    let key ← toText call x
    hasProperty y key
  | _ => do
    let shown ← display x
    raise .typeError
      s!"Cannot use 'in' operator to search for '{shown}' in {y.primitiveToText}"

/-- The operator `instanceof`: whether an object inherits from the `prototype` of a function. -/
def instanceOf (v target : Value) : Run Bool := do
  if !(← onHeap (·.isCallable target)) then
    raise .typeError "Right-hand side of 'instanceof' is not callable"
  else
    match v with
    | .object r =>
      match ← getProperty target "prototype" with
      | .object p => onHeap fun h => (h.chain r).tail.contains p
      | _ => raise .typeError "Function has non-object prototype in instanceof check"
    | _ => return false

/-- The operator `+`: concatenates if one operand is a string, and adds otherwise. -/
def sum (call : Caller) (x y : Value) : Run Value := do
  let p ← toPrimitive call x .default
  let q ← toPrimitive call y .default
  match p, q with
  | .string s, q => return .string (s ++ q.primitiveToText)
  | p, .string t => return .string (p.primitiveToText ++ t)
  | p, q => return .number (p.primitiveToNumber + q.primitiveToNumber)

/-- A numeric operator on any values. -/
def numeric (call : Caller) (op : NumericOp) (x y : Value) : Run Float := do
  let x ← toNumber call x
  let y ← toNumber call y
  return op.apply x y

/-- A binary operator on any values. -/
def binary (call : Caller) (op : BinaryOp) (x y : Value) : Run Value :=
  match op.family with
  | .sum => sum call x y
  | .numeric op => do return .number (← numeric call op x y)
  | .relation r => do return .boolean (← compare call r x y)
  | .equality e => do return .boolean (← equal call e x y)
  | .membership => do return .boolean (← membership call x y)
  | .instanceOf => do return .boolean (← instanceOf x y)

/-- A unary operator on any value.  What is no place is always deleted. -/
def unary (call : Caller) (op : UnaryOp) (v : Value) : Run Value :=
  match op with
  | .minus => do return .number (-(← toNumber call v))
  | .plus => do return .number (← toNumber call v)
  | .bitwiseNot => do return .number (bitNot (← toNumber call v))
  | .logicalNot => pure (.boolean !v.toBoolean)
  | .typeOf => do return .string (← onHeap (·.typeName v))
  | .void => pure .undefined
  | .delete => pure (.boolean true)

end Run

/-- The result of an operator on one result. -/
def UnaryForm.apply (call : Caller) {ρ σ : Rep} : UnaryForm ρ σ → ρ.Carrier → Run σ.Carrier
  | .convert ρ σ, x => Run.convert call σ (ρ.box x)
  | .negate, x => pure (-x : Float)
  | .complement, x => pure (bitNot x)
  | .not, b => pure (!b)
  | .typeOf ρ, x => Run.onHeap (·.typeName (ρ.box x))
  | .object, v => Run.toObject v
  | .void _, _ => pure Value.undefined
  | .dynamic op, v => Run.unary call op v

/-- The result of an operator on two results. -/
def BinaryForm.apply (call : Caller) {ρ σ τ : Rep} :
    BinaryForm ρ σ τ → ρ.Carrier → σ.Carrier → Run τ.Carrier
  | .numbers op, x, y => pure (op.apply x y)
  | .numeric op, x, y => Run.numeric call op x y
  | .compareNumbers r, x, y => pure (r.numbers x y)
  | .compareStrings r, s, t => pure (r.strings s t)
  | .compare r, x, y => Run.compare call r x y
  | .equalNumbers negated, x, y => pure (((show Float from x) == y) != negated)
  | .equalBooleans negated, x, y => pure (((show Bool from x) == y) != negated)
  | .equalStrings negated, x, y => pure (((show String from x) == y) != negated)
  | .equal e, x, y => Run.equal call e x y
  | .concatenate, s, t => pure ((show String from s) ++ t)
  | .concatenateValues, x, y => do
    let p ← Run.toPrimitive call x .default
    let q ← Run.toPrimitive call y .default
    return p.primitiveToText ++ q.primitiveToText
  | .membership, x, y => Run.membership call x y
  | .instanceOf, x, y => Run.instanceOf x y
  | .dynamic op, x, y => Run.binary call op x y

end ScriptEngine
