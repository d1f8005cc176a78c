import ScriptEngine.Heap.Object

/-!
# The heap

All objects, in the order in which they were made.

## Main definitions

* `Heap` : the objects.
* `Heap.alloc`, `Heap.update` : new objects, and changes of objects.
* `Heap.chain` : an object and the objects it inherits from.
* `Heap.get`, `Heap.hasProperty`, `Heap.enumerate` : properties, own or inherited.
-/

namespace ScriptEngine

/-- The objects that exist. -/
structure Heap where
  objects : Array Object

namespace Heap

/-- The heap without objects. -/
def empty : Heap := ⟨#[]⟩

/-- The number of objects. -/
def size (h : Heap) : Nat :=
  h.objects.size

/-- An object; a reference to nothing is an object without properties. -/
def object (h : Heap) (r : Ref) : Object :=
  h.objects[r]?.getD default

/-- Adds an object. -/
def alloc (h : Heap) (o : Object) : Ref × Heap :=
  (h.objects.size, ⟨h.objects.push o⟩)

/-- Changes the object at a place. -/
def update (h : Heap) (r : Ref) (f : Object → Object) : Heap :=
  ⟨h.objects.modify r f⟩

/-! ### Chains of prototypes -/

/-- An object and those it inherits from, as far as `fuel` goes. -/
def chainWithin (h : Heap) : Nat → Ref → List Ref
  | 0, _ => []
  | fuel + 1, r =>
    match (h.object r).prototype with
    | some p => r :: chainWithin h fuel p
    | none => [r]

/-- An object and those it inherits from.  With more links than objects they would go round in
circles. -/
def chain (h : Heap) (r : Ref) : List Ref :=
  h.chainWithin (h.size + 1) r

/-! ### Properties -/

/-- The value of a property, own or inherited; `undefined` if there is none. -/
def get (h : Heap) (r : Ref) (key : String) : Value :=
  ((h.chain r).findSome? fun q => (h.object q).getOwn? key).getD .undefined

/-- Whether there is a property, own or inherited. -/
def hasProperty (h : Heap) (r : Ref) (key : String) : Bool :=
  (h.chain r).any fun q => (h.object q).hasOwn key

/-- The keys of an object that are not among the given ones, and with the given ones. -/
def freshKeys (seen : List String) : List String → List String × List String
  | [] => ([], seen)
  | key :: rest =>
    if seen.contains key then freshKeys seen rest
    else
      let (fresh, seen) := freshKeys (key :: seen) rest
      (key :: fresh, seen)

/-- The enumerable keys along a chain.  A key counts where it is met first. -/
def enumerateFrom (h : Heap) (seen : List String) : List Ref → List String
  | [] => []
  | r :: rest =>
    let o := h.object r
    let (fresh, seen) := freshKeys seen (o.ownKeys false)
    fresh.filter o.isOwnEnumerable ++ enumerateFrom h seen rest

/-- The keys that a loop over an object visits: its own, then the inherited ones that it does not
hide. -/
def enumerate (h : Heap) (r : Ref) : List String :=
  h.enumerateFrom [] (h.chain r)

/-- Whether a value can be called. -/
def isCallable (h : Heap) : Value → Bool
  | .object r => (h.object r).isCallable
  | _ => false

/-- The operator `typeof`. -/
def typeName (h : Heap) : Value → String
  | .undefined => "undefined"
  | .null => "object"
  | .boolean _ => "boolean"
  | .number _ => "number"
  | .string _ => "string"
  | .object r => if (h.object r).isCallable then "function" else "object"

/-- A parameter that an arguments object keeps; other values have none. -/
def parameter (h : Heap) (arguments : Value) (index : Nat) : Value :=
  match arguments with
  | .object r => (h.object r).parameter index
  | _ => .undefined

/-- Writes a parameter that an arguments object keeps. -/
def setParameter (h : Heap) (arguments : Value) (index : Nat) (v : Value) : Heap :=
  match arguments with
  | .object r => h.update r (·.setParameter index v)
  | _ => h

end Heap

end ScriptEngine
