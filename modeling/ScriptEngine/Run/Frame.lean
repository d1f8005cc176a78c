import ScriptEngine.Run.Property

/-!
# Frames

What one activation of a body has for itself, and the places that its names stand for.

## Main definitions

* `Frame` : the state of an activation.
* `RunState` : the frame and the machine.
* `Place` : a place that a name or a property reference was found to be.
* `Access.resolve` : the place of a name.
* `Place.read`, `Place.write`, `Place.delete` : the operations on places.
-/

namespace ScriptEngine

/-- The state of one activation. -/
structure Frame where
  strict : Bool
  this : Value
  /-- The function that runs. -/
  callee : Value
  /-- The arguments object, which keeps the parameters. -/
  arguments : Value
  /-- The record that the function took along when it was made. -/
  scope : Option RecordRef
  /-- The record of the variables that functions inside use. -/
  own : Option RecordRef
  /-- The records that the body reaches. -/
  records : Array (Option RecordRef)
  values : Array Value
  doubles : Array Float
  booleans : Array Bool
  strings : Array String
  /-- The value of the last expression statement of a script. -/
  completion : Value
deriving Inhabited

namespace Frame

/-- The innermost record, which functions made here take along. -/
def head (f : Frame) : Option RecordRef :=
  f.own.or f.scope

/-- What a slot holds. -/
def slot (f : Frame) : (ρ : Rep) → Nat → ρ.Carrier
  | .double, i => f.doubles[i]?.getD (Rep.initial .double)
  | .boolean, i => f.booleans[i]?.getD (Rep.initial .boolean)
  | .string, i => f.strings[i]?.getD (Rep.initial .string)
  | .boxed, i => f.values[i]?.getD (Rep.initial .boxed)

/-- Writes a slot. -/
def setSlot (f : Frame) : (ρ : Rep) → Nat → ρ.Carrier → Frame
  | .double, i, x => { f with doubles := f.doubles.setIfInBounds i x }
  | .boolean, i, b => { f with booleans := f.booleans.setIfInBounds i b }
  | .string, i, s => { f with strings := f.strings.setIfInBounds i s }
  | .boxed, i, v => { f with values := f.values.setIfInBounds i v }

end Frame

/-- The state that code runs on. -/
structure RunState where
  frame : Frame
  machine : Machine

/-- Computations of an activation. -/
abbrev Act := Exec RunState

namespace Act

variable {α : Type}

/-- A computation on the machine; the frame stays as it is. -/
@[always_inline, inline]
def lift (x : Run α) : Act α :=
  fun ⟨frame, machine⟩ =>
    match x machine with
    | .ok a machine => .ok a ⟨frame, machine⟩
    | .error e machine => .error e ⟨frame, machine⟩
    | .exhausted => .exhausted

/-- Reads from the frame. -/
@[always_inline, inline]
def onFrame (f : Frame → α) : Act α :=
  fun s => .ok (f s.frame) s

/-- Changes the frame. -/
@[always_inline, inline]
def changeFrame (f : Frame → Frame) : Act Unit :=
  fun ⟨frame, machine⟩ => .ok () ⟨f frame, machine⟩

/-- Reads from the heap. -/
@[always_inline, inline]
def onHeap (f : Heap → α) : Act α :=
  fun s => .ok (f s.machine.heap) s

/-- Writes a slot. -/
def setSlot (ρ : Rep) (index : Nat) (x : ρ.Carrier) : Act Unit :=
  changeFrame (·.setSlot ρ index x)

/-- A record that the body reaches. -/
def record (number : Nat) : Act RecordRef := do
  match (← onFrame (·.records[number]?)).join with
  | some r => return r
  | none => Exec.raise .referenceError s!"closure level {number} is not available"

/-- The value of a field. -/
def readField (address : FieldAddress) : Act Value := do
  let r ← record address.record
  fun s => .ok (s.machine.records.get r address.index) s

/-- Writes a field. -/
def writeField (address : FieldAddress) (v : Value) : Act Unit := do
  let r ← record address.record
  fun ⟨frame, ⟨heap, records, depth, limit, output⟩⟩ =>
    .ok () ⟨frame, ⟨heap, records.set r address.index v, depth, limit, output⟩⟩

/-- Fails because nothing has a name. -/
def notDefined (name : String) : Act α :=
  Exec.raise .referenceError s!"{name} is not defined"

/-- The arguments object that keeps a parameter. -/
def argumentsObject : Option FieldAddress → Act Value
  | some address => readField address
  | none => onFrame (·.arguments)

end Act

/-! ### Variables -/

namespace Storage

/-- The value of a variable.  A global that is not there is an error, unless `lenient`. -/
def read (lenient : Bool) : Storage → Act Value
  | .global name => do
    let global := Intrinsic.global.ref
    if ← Act.onHeap (·.hasProperty global name) then Act.onHeap (·.get global name)
    else if lenient then return .undefined
    else Act.notDefined name
  | .parameter index via => do
    let arguments ← Act.argumentsObject via
    Act.onHeap (·.parameter arguments index)
  | .slot ρ index => Act.onFrame fun f => ρ.box (f.slot ρ index)
  | .field address => Act.readField address

/-- Writes a variable.  Strict code may not make a new global. -/
def write (v : Value) : Storage → Act Unit
  | .global name => do
    let global := Intrinsic.global.ref
    if (← Act.onFrame (·.strict)) && !(← Act.onHeap (·.hasProperty global name)) then
      Act.notDefined name
    else Act.lift (Run.putOwn global name v)
  | .parameter index via => do
    let arguments ← Act.argumentsObject via
    Act.lift (Run.changeHeap (·.setParameter arguments index v))
  | .slot ρ index => Act.setSlot ρ index (ρ.ofPrimitive v)
  | .field address => Act.writeField address v

end Storage

namespace Binding

/-- Writes a variable.  One that may not be assigned keeps its value, and strict code fails. -/
def write (b : Binding) (v : Value) : Act Unit :=
  match b.constant with
  | none => b.storage.write v
  | some name => do
    if ← Act.onFrame (·.strict) then
      Exec.raise .typeError s!"Assignment to constant variable '{name}'"

/-- Deletes a variable: only globals can be deleted, and they count as deleted if they are not
there. -/
def delete (b : Binding) : Act Bool :=
  match b with
  | ⟨.global name, none⟩ => do
    let global := Intrinsic.global.ref
    if ← Act.onHeap (·.hasProperty global name) then
      Act.lift (Run.deleteProperty (.object global) name false)
    else return true
  | _ => pure false

end Binding

/-! ### Places -/

/-- What a reference was found to be. -/
inductive Place where
  | binding (name : String) (b : Binding)
  | property (base : Value) (key : String)
deriving Repr, Inhabited

namespace Access

/-- The object of a scope if it has a name. -/
def probe (name : String) (scope : Binding) : Act (Option Value) := do
  match ← scope.storage.read false with
  | .object r =>
    return if ← Act.onHeap (·.hasProperty r name) then some (.object r) else none
  | _ => return none

/-- The place of a name: a property of the innermost object that has it, or its variable. -/
def resolve (a : Access) : Act Place := do
  match ← Exec.firstResult (probe a.name) a.scopes with
  | some base => return .property base a.name
  | none => return .binding a.name a.binding

end Access

namespace Place

/-- The value at a place. -/
def read (lenient : Bool) : Place → Act Value
  | .binding _ b => b.storage.read lenient
  | .property base key => Act.lift (Run.getProperty base key)

/-- Writes a place. -/
def write (v : Value) : Place → Act Unit
  | .binding _ b => b.write v
  | .property base key => do
    let strict ← Act.onFrame (·.strict)
    Act.lift (Run.putProperty base key v strict)

/-- Deletes a place. -/
def delete : Place → Act Bool
  | .binding _ b => b.delete
  | .property base key => do
    let strict ← Act.onFrame (·.strict)
    Act.lift (Run.deleteProperty base key strict)

/-- The name that a place is called by. -/
def name : Place → String
  | .binding name _ => name
  | .property _ key => key

/-- The `this` of a call of the function at a place. -/
def receiver : Place → Value
  | .binding .. => .undefined
  | .property base _ => base

end Place

end ScriptEngine
