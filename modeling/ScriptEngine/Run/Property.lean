import ScriptEngine.Run.Machine

/-!
# Properties of values

Reading, writing, testing and deleting properties of any value.  Primitive values read through the
prototypes of their classes, and ignore what is written to them.

## Main definitions

* `Run.getProperty`, `Run.putProperty`, `Run.hasProperty`, `Run.deleteProperty` : the operations.
* `Run.getMethod` : a property that is to be called.
-/

namespace ScriptEngine.Run

/-- Makes the `prototype` of a script's function when a key asks for it. -/
def preparePrototype (r : Ref) (key : String) : Run Unit :=
  if key == "prototype" then changeHeap (·.ensurePrototype r) else pure ()

/-- The property of a string: its length, one of its units, or what strings inherit. -/
def stringProperty (h : Heap) (s key : String) : Value :=
  if key == "length" then .number (Float.ofNat (Text.length16 s))
  else
    match (arrayIndex? key).bind (Text.unitAt? s) with
    | some c => .string c
    | none => h.get Intrinsic.stringPrototype.ref key

/-- The value of a property. -/
def getProperty (v : Value) (key : String) : Run Value :=
  match v with
  | .object r => do
    preparePrototype r key
    onHeap (·.get r key)
  | .undefined | .null => do
    raise .typeError s!"Cannot read property '{key}' of {v.primitiveToText}"
  | .string s => onHeap (stringProperty · s key)
  | .number _ => onHeap (·.get Intrinsic.numberPrototype.ref key)
  | .boolean _ => onHeap (·.get Intrinsic.booleanPrototype.ref key)

/-- A property that is to be called; there may be none. -/
def getMethod (v : Value) (key : String) : Run Value := do
  let f ← getProperty v key
  if f.isNullish then return .undefined
  else if ← onHeap (·.isCallable f) then return f
  else raise .typeError s!"'{key}' is not a function"

/-- Writes an own property of an object. -/
def putOwn (r : Ref) (key : String) (value : Value) : Run Unit := do
  if ← onHeap fun h => (h.object r).acceptsOwn key value then
    changeHeap (·.update r (·.putOwn key value))
  else raise .rangeError "Invalid array length"

/-- Writes a property.  Primitive values ignore it, or reject it in strict code. -/
def putProperty (v : Value) (key : String) (value : Value) (strict : Bool) : Run Unit :=
  match v with
  | .object r => putOwn r key value
  | .undefined | .null =>
    raise .typeError s!"Cannot set property '{key}' of {v.primitiveToText}"
  | _ =>
    if strict then raise .typeError s!"Cannot create property '{key}' on {v.primitiveToText}"
    else pure ()

/-- Whether a value has a property; only objects may be asked. -/
def hasProperty (v : Value) (key : String) : Run Bool :=
  match v with
  | .object r => do
    preparePrototype r key
    onHeap (·.hasProperty r key)
  | _ => raise .typeError s!"Cannot use 'in' operator to search for '{key}' in {v.primitiveToText}"

/-- Deletes a property of an object and tells whether that is allowed. -/
def deleteOwn (r : Ref) (key : String) : Run Bool := do
  let permanent ← onHeap fun h => (h.object r).isPermanent key
  changeHeap (·.update r (·.deleteOwn key))
  return !permanent

/-- Tells whether a property may be deleted, and deletes it. -/
def tryDelete (v : Value) (key : String) : Run Bool :=
  match v with
  | .object r => deleteOwn r key
  | .undefined | .null => raise .typeError s!"Cannot convert {v.primitiveToText} to object"
  | .string s =>
    pure (key != "length" && !((arrayIndex? key).any (· < Text.length16 s)))
  | _ => pure true

/-- Deletes a property.  What may not be deleted is an error in strict code. -/
def deleteProperty (v : Value) (key : String) (strict : Bool) : Run Bool := do
  let deleted ← tryDelete v key
  if !deleted && strict then
    let shown ← display v
    raise .typeError s!"Cannot delete property '{key}' of {shown}"
  else return deleted

end ScriptEngine.Run
