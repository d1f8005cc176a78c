import ScriptEngine.Heap.Basic

/-!
# New objects

The objects that are there from the start, and the objects that are made while scripts run.

## Main definitions

* `Intrinsic` : the prototypes of the classes and the global object, which stand at fixed places.
* `Heap.bare` : the heap with the intrinsic objects only.
* `Heap.newObject`, `Heap.newArray`, `Heap.newError`, `Heap.newFunction`, `Heap.newArguments` : new
  objects of the classes.
* `Heap.ensurePrototype` : the `prototype` of a script's function, made when it is first asked for.
-/

namespace ScriptEngine

/-- The objects that are there from the start. -/
inductive Intrinsic where
  | objectPrototype | functionPrototype | arrayPrototype
  | errorPrototype | typeErrorPrototype | referenceErrorPrototype | rangeErrorPrototype
  | syntaxErrorPrototype
  | booleanPrototype | numberPrototype | stringPrototype | regularExpressionPrototype
  | global
deriving Repr, DecidableEq, Inhabited

namespace Intrinsic

/-- All intrinsic objects in the order of their places. -/
def all : List Intrinsic :=
  [.objectPrototype, .functionPrototype, .arrayPrototype, .errorPrototype, .typeErrorPrototype,
    .referenceErrorPrototype, .rangeErrorPrototype, .syntaxErrorPrototype, .booleanPrototype,
    .numberPrototype, .stringPrototype, .regularExpressionPrototype, .global]

/-- The place of an intrinsic object. -/
def ref : Intrinsic → Ref
  | .objectPrototype => 0
  | .functionPrototype => 1
  | .arrayPrototype => 2
  | .errorPrototype => 3
  | .typeErrorPrototype => 4
  | .referenceErrorPrototype => 5
  | .rangeErrorPrototype => 6
  | .syntaxErrorPrototype => 7
  | .booleanPrototype => 8
  | .numberPrototype => 9
  | .stringPrototype => 10
  | .regularExpressionPrototype => 11
  | .global => 12

/-- The class of an intrinsic object. -/
def cls : Intrinsic → ObjectClass
  | .functionPrototype => .function (.native .functionPrototype)
  | .arrayPrototype => .array #[]
  | .booleanPrototype => .boolean false
  | .numberPrototype => .number 0.0
  | .stringPrototype => .string ""
  | _ => .ordinary

/-- What an intrinsic object inherits from. -/
def parent : Intrinsic → Option Intrinsic
  | .objectPrototype => none
  | .typeErrorPrototype | .referenceErrorPrototype | .rangeErrorPrototype
  | .syntaxErrorPrototype => some .errorPrototype
  | _ => some .objectPrototype

/-- The prototype of errors of a kind, or of plain ones. -/
def ofErrorKind : Option ErrorKind → Intrinsic
  | none => .errorPrototype
  | some .typeError => .typeErrorPrototype
  | some .referenceError => .referenceErrorPrototype
  | some .rangeError => .rangeErrorPrototype
  | some .syntaxError => .syntaxErrorPrototype

end Intrinsic

namespace Heap

/-- The heap with the intrinsic objects, all without properties. -/
def bare : Heap :=
  Intrinsic.all.foldl (fun h i => (h.alloc (.plain i.cls (i.parent.map (·.ref)))).2) .empty

/-- Adds an object of a class that inherits from an intrinsic object. -/
def make (h : Heap) (cls : ObjectClass) (parent : Intrinsic)
    (properties : List (String × Value)) : Ref × Heap :=
  h.alloc (properties.foldl (fun o p => o.defineOwn p.1 p.2 false) (.plain cls (some parent.ref)))

/-- A new ordinary object. -/
def newObject (h : Heap) : Ref × Heap :=
  h.make .ordinary .objectPrototype []

/-- A new array. -/
def newArray (h : Heap) (elements : Array Value) : Ref × Heap :=
  h.make (.array elements) .arrayPrototype []

/-- A new regular expression. -/
def newRegularExpression (h : Heap) (pattern flags : String) : Ref × Heap :=
  h.make .regularExpression .regularExpressionPrototype
    [("source", .string pattern), ("global", .boolean (flags.contains 'g')),
      ("ignoreCase", .boolean (flags.contains 'i')), ("multiline", .boolean (flags.contains 'm')),
      ("lastIndex", .number 0.0)]

/-- A new error.  An empty message is inherited. -/
def newError (h : Heap) (kind : Option ErrorKind) (message : String) : Ref × Heap :=
  h.make .error (.ofErrorKind kind)
    (if message.isEmpty then [] else [("message", .string message)])

/-- A new native function. -/
def newNative (h : Heap) (f : Native) (length : Nat) : Ref × Heap :=
  h.make (.function (.native f)) .functionPrototype
    [("length", .number (Float.ofNat length)), ("name", .string f.name)]

/-- A new function of a script. -/
def newFunction (h : Heap) (code : FunctionCode) (scope : Option RecordRef) : Ref × Heap :=
  h.make (.function (.script code scope)) .functionPrototype
    [("length", .number (Float.ofNat code.info.paramCount)), ("name", .string code.info.name)]

/-- A new arguments object for a function with the given number of parameters. -/
def newArguments (h : Heap) (arguments : List Value) (paramCount : Nat) (callee : Option Ref) :
    Ref × Heap :=
  let values := arguments.toArray
  let length := ("length", Value.number (Float.ofNat values.size))
  h.make (.arguments (padded values paramCount) values.size) .objectPrototype
    (match callee with
      | some r => [length, ("callee", .object r)]
      | none => [length])

/-- The object that wraps a primitive value; there is none for `undefined` and `null`. -/
def wrap? (h : Heap) : Value → Option (Ref × Heap)
  | .undefined | .null => none
  | .boolean b => some (h.make (.boolean b) .booleanPrototype [])
  | .number x => some (h.make (.number x) .numberPrototype [])
  | .string s => some (h.make (.string s) .stringPrototype [])
  | .object r => some (r, h)

/-- Whether an object is a function of a script that has no `prototype` yet. -/
def lacksPrototype (h : Heap) (r : Ref) : Bool :=
  let o := h.object r
  match o.cls with
  | .function (.script ..) => !o.hasOwn "prototype"
  | _ => false

/-- Makes the `prototype` of a script's function if it is not there: an object that names the
function as its `constructor`. -/
def ensurePrototype (h : Heap) (f : Ref) : Heap :=
  if h.lacksPrototype f then
    let (p, h) := h.make .ordinary .objectPrototype [("constructor", .object f)]
    h.update f (·.defineOwn "prototype" (.object p) false)
  else h

end Heap

end ScriptEngine
