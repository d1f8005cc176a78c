import ScriptEngine.Heap.Intrinsic
import ScriptEngine.Run.Exec

/-!
# The machine

What outlives a call: the heap, the records of captured variables, the depth of calls and the text
written so far.

## Main definitions

* `Record` : captured variables of one activation, linked to the record around it.
* `Machine` : the state.
* `Run` : computations on the machine.
* `Run.nested` : a computation one call deeper.
-/

namespace ScriptEngine

/-- The captured variables of one activation. -/
structure Record where
  fields : Array Value
  /-- The record of the nearest enclosing activation that has one. -/
  parent : Option RecordRef
deriving Repr, Inhabited

/-- All records, in the order in which they were made. -/
structure Records where
  entries : Array Record
deriving Repr, Inhabited

namespace Records

/-- No records. -/
def empty : Records := ⟨#[]⟩

/-- A record; a reference to nothing is a record without fields. -/
def record (rs : Records) (r : RecordRef) : Record :=
  rs.entries[r]?.getD default

/-- Adds a record whose fields are all `undefined`. -/
def alloc (rs : Records) (fieldCount : Nat) (parent : Option RecordRef) : RecordRef × Records :=
  (rs.entries.size, ⟨rs.entries.push ⟨Array.replicate fieldCount .undefined, parent⟩⟩)

/-- The value of a field; a field that is not there reads as `undefined`. -/
def get (rs : Records) (r : RecordRef) (index : Nat) : Value :=
  (rs.record r).fields[index]?.getD .undefined

/-- Writes a field; a field that is not there is left alone. -/
def set (rs : Records) (r : RecordRef) (index : Nat) (v : Value) : Records :=
  ⟨rs.entries.modify r fun x => { x with fields := x.fields.setIfInBounds index v }⟩

/-- The number of fields of a record. -/
def fieldCount (rs : Records) (r : RecordRef) : Nat :=
  (rs.record r).fields.size

/-- The record that a record is linked to. -/
def parent? (rs : Records) (r : RecordRef) : Option RecordRef :=
  (rs.record r).parent

/-- The record some links up. -/
def ancestor? (rs : Records) (r : RecordRef) : Nat → Option RecordRef
  | 0 => some r
  | hops + 1 =>
    match rs.parent? r with
    | some p => rs.ancestor? p hops
    | none => none

end Records

/-- The state that outlives calls. -/
structure Machine where
  heap : Heap
  records : Records
  /-- The number of calls under way. -/
  depth : Nat
  /-- The greatest number of calls under way. -/
  limit : Nat
  /-- What was written to the console. -/
  output : String

/-- Computations on the machine. -/
abbrev Run := Exec Machine

/-- Calls of a value as a function, with a `this` and arguments. -/
abbrev Caller := Value → Value → List Value → Run Value

namespace Run

/-- Fails with an error of the engine. -/
@[always_inline, inline]
def raise {α : Type} (kind : ErrorKind) (message : String) : Run α :=
  Exec.raise kind message

/-- Reads from the heap. -/
@[always_inline, inline]
def onHeap {α : Type} (f : Heap → α) : Run α :=
  fun m => .ok (f m.heap) m

/-- Changes the heap. -/
@[always_inline, inline]
def changeHeap (f : Heap → Heap) : Run Unit :=
  fun ⟨heap, records, depth, limit, output⟩ => .ok () ⟨f heap, records, depth, limit, output⟩

/-- Adds an object to the heap. -/
@[always_inline, inline]
def new (f : Heap → Ref × Heap) : Run Value :=
  fun ⟨heap, records, depth, limit, output⟩ =>
    let (r, heap) := f heap
    .ok (.object r) ⟨heap, records, depth, limit, output⟩

/-- The text of a value on a console. -/
def display (v : Value) : Run String :=
  onHeap (·.display v)

/-- Writes to the console. -/
def write (text : String) : Run Unit :=
  fun ⟨heap, records, depth, limit, output⟩ => .ok () ⟨heap, records, depth, limit, output ++ text⟩

/-- One call less is under way. -/
def leave (m : Machine) : Machine :=
  { m with depth := m.depth - 1 }

/-- Runs a computation one call deeper, unless the limit is reached.  The depth is restored whether
it succeeds or fails. -/
def nested {α : Type} (x : Run α) : Run α :=
  fun m =>
    if m.depth < m.limit then
      match x { m with depth := m.depth + 1 } with
      | .ok a m => .ok a (leave m)
      | .error e m => .error e (leave m)
      | .exhausted => .exhausted
    else .error (.raised .rangeError "Maximum call stack size exceeded") m

end Run

end ScriptEngine
