import ScriptEngine.Run.Operator

/-!
# Native functions at work

What the native functions do, and the global names under which scripts find them.

## Main definitions

* `Native.run` : the call of a native function.
* `Builtin` : a global name with its function or object, and what belongs to it.
* `Heap.initial` : the heap before the first script.
-/

namespace ScriptEngine

namespace Native

/-- An argument of a call; `undefined` if it is missing. -/
def argument (arguments : List Value) (i : Nat) : Value :=
  arguments[i]?.getD .undefined

/-! ### Objects -/

/-- `Object`: a new object for nothing, and the object of anything else. -/
def runObject (arguments : List Value) : Run Value :=
  let v := argument arguments 0
  if v.isNullish then Run.new (·.newObject) else Run.toObject v

/-- The class of a value as it is shown. -/
def classTag (h : Heap) : Value → String
  | .undefined => "Undefined"
  | .null => "Null"
  | .boolean _ => "Boolean"
  | .number _ => "Number"
  | .string _ => "String"
  | .object r => (h.object r).cls.name

/-- `hasOwnProperty`: the key becomes a text before the receiver becomes an object. -/
def runHasOwnProperty (call : Caller) (this : Value) (arguments : List Value) : Run Value := do
  let key ← Run.toText call (argument arguments 0)
  match ← Run.toObject this with
  | .object r => return .boolean (← Run.onHeap fun h => (h.object r).hasOwn key)
  | _ => return .boolean false

/-! ### Functions -/

/-- The arguments that `apply` takes from an array or an arguments object. -/
def listOf (v : Value) : Run (List Value) :=
  match v with
  | .undefined | .null => pure []
  | .object r => do
    match ← Run.onHeap fun h => (h.object r).cls with
    | .array elements => return elements.toList
    | .arguments values length => return values.toList.take length
    | _ => Run.raise .typeError "CreateListFromArrayLike called on non-array"
  | _ => Run.raise .typeError "CreateListFromArrayLike called on non-object"

/-- The text of a function. -/
def functionText (f : Callable) : String :=
  let body := match f with
    | .script .. => "[compiled code]"
    | .native _ => "[native code]"
  "function " ++ f.name ++ "() \x7b " ++ body ++ " \x7d"

/-- `toString` of functions. -/
def runFunctionToString (this : Value) : Run Value := do
  let text? ← Run.onHeap fun h =>
    match this with
    | .object r =>
      match (h.object r).cls with
      | .function f => some (functionText f)
      | _ => none
    | _ => none
  match text? with
  | some text => return .string text
  | none =>
    Run.raise .typeError "Function.prototype.toString requires that 'this' be a Function"

/-! ### Arrays -/

/-- Whether a value is an array. -/
def isArray (h : Heap) : Value → Bool
  | .object r =>
    match (h.object r).cls with
    | .array _ => true
    | _ => false
  | _ => false

/-- `Array`: a single number is a length, anything else is a list of elements. -/
def runArray (arguments : List Value) : Run Value :=
  match arguments with
  | [.number x] =>
    match arrayLength? (.number x) with
    | some n => Run.new (·.newArray (Array.replicate n .undefined))
    | none => Run.raise .rangeError "Invalid array length"
  | arguments => Run.new (·.newArray arguments.toArray)

/-- The array that a method is called on. -/
def receiver (this : Value) (method : String) : Run Ref := do
  if ← Run.onHeap (isArray · this) then
    match this with
    | .object r => return r
    | _ => return 0
  else Run.raise .typeError s!"Array.prototype.{method} called on non-array"

/-- The elements of an array. -/
def elements (o : Object) : Array Value :=
  match o.cls with
  | .array elements => elements
  | _ => #[]

/-- Changes the elements of an array. -/
def changeElements (f : Array Value → Array Value) (o : Object) : Object :=
  match o with
  | ⟨.array elements, prototype, properties⟩ => ⟨.array (f elements), prototype, properties⟩
  | o => o

/-- `push`: appends the arguments and yields the new length. -/
def runPush (this : Value) (arguments : List Value) : Run Value := do
  let r ← receiver this "push"
  Run.changeHeap (·.update r (changeElements (arguments.foldl Array.push ·)))
  return .number (Float.ofNat (← Run.onHeap fun h => (elements (h.object r)).size))

/-- `pop`: removes the last element and yields it. -/
def runPop (this : Value) : Run Value := do
  let r ← receiver this "pop"
  let last ← Run.onHeap fun h => (elements (h.object r)).back?.getD .undefined
  Run.changeHeap (·.update r (changeElements Array.pop))
  return last

/-- The texts of elements; `undefined` and `null` have the empty one. -/
def elementTexts (call : Caller) : List Value → Run (List String)
  | [] => pure []
  | v :: rest => do
    let text ← if v.isNullish then pure "" else Run.toText call v
    let texts ← elementTexts call rest
    return text :: texts

/-- `join`: the texts of the elements, with a separator. -/
def runJoin (call : Caller) (this separator : Value) : Run Value := do
  let r ← receiver this "join"
  let separator ← match separator with
    | .undefined => pure ","
    | v => Run.toText call v
  let values ← Run.onHeap fun h => (elements (h.object r)).toList
  let texts ← elementTexts call values
  return .string (separator.intercalate texts)

/-! ### Errors and the console -/

/-- The text of a value, or another one for `undefined`. -/
def textOr (call : Caller) (missing : String) (v : Value) : Run String :=
  match v with
  | .undefined => pure missing
  | v => Run.toText call v

/-- A constructor of errors. -/
def runError (call : Caller) (kind : Option ErrorKind) (arguments : List Value) : Run Value := do
  let message ← textOr call "" (argument arguments 0)
  Run.new (·.newError kind message)

/-- `toString` of errors: the name, the message, or both. -/
def runErrorToString (call : Caller) (this : Value) : Run Value :=
  match this with
  | .object r => do
    let name ← textOr call "Error" (← Run.onHeap (·.get r "name"))
    let message ← textOr call "" (← Run.onHeap (·.get r "message"))
    return .string <|
      if name.isEmpty then message
      else if message.isEmpty then name
      else name ++ ": " ++ message
  | _ => Run.raise .typeError "Error.prototype.toString called on non-object"

/-- One line of the console: the texts of values with blanks between them. -/
def consoleLine (h : Heap) (values : List Value) : String :=
  " ".intercalate (values.map h.display)

/-- The call of a native function. -/
def run (call : Caller) (f : Native) (this : Value) (arguments : List Value) : Run Value :=
  match f with
  | .functionPrototype => pure .undefined
  | .object => runObject arguments
  | .objectToString => do
    return .string ("[object " ++ (← Run.onHeap (classTag · this)) ++ "]")
  | .objectValueOf => Run.toObject this
  | .hasOwnProperty => runHasOwnProperty call this arguments
  | .function => Run.raise .syntaxError "Function constructor is not supported"
  | .functionCall => call this (argument arguments 0) arguments.tail
  | .functionApply => do
    let list ← listOf (argument arguments 1)
    call this (argument arguments 0) list
  | .functionToString => runFunctionToString this
  | .array => runArray arguments
  | .arrayIsArray => do return .boolean (← Run.onHeap (isArray · (argument arguments 0)))
  | .arrayPush => runPush this arguments
  | .arrayPop => runPop this
  | .arrayJoin => runJoin call this (argument arguments 0)
  | .arrayToString => runJoin call this .undefined
  | .error kind => runError call kind arguments
  | .errorToString => runErrorToString call this
  | .consoleLog => do
    Run.write ((← Run.onHeap (consoleLine · arguments)) ++ "\n")
    return .undefined

end Native

/-! ### Global names -/

/-- A native function with its number of parameters. -/
structure Method where
  function : Native
  length : Nat

/-- A global name: a constructor with its prototype, or an object that only holds functions. -/
structure Builtin where
  name : String
  /-- The constructor and the prototype of what it makes. -/
  constructor : Option (Method × Intrinsic)
  /-- What the prototype gets. -/
  methods : List Method
  properties : List (String × Value)
  /-- What the constructor or the object itself gets. -/
  statics : List Method

namespace Heap

/-- Gives an object a property that loops do not visit. -/
def hide (h : Heap) (r : Ref) (key : String) (v : Value) : Heap :=
  h.update r (·.defineOwn key v false)

/-- Gives an object native functions under their names. -/
def addMethods (h : Heap) (r : Ref) (methods : List Method) : Heap :=
  methods.foldl (fun h m =>
    let (f, h) := h.newNative m.function m.length
    h.hide r m.function.name (.object f)) h

/-- Adds a global name. -/
def install (h : Heap) (b : Builtin) : Heap :=
  let global := Intrinsic.global.ref
  match b.constructor with
  | some (m, prototype) =>
    let (c, h) := h.newNative m.function m.length
    let h := h.addMethods prototype.ref b.methods
    let h := b.properties.foldl (fun h p => h.hide prototype.ref p.1 p.2) h
    let h := h.hide prototype.ref "constructor" (.object c)
    let h := h.hide c "prototype" (.object prototype.ref)
    let h := h.addMethods c b.statics
    h.hide global b.name (.object c)
  | none =>
    let (o, h) := h.newObject
    let h := h.addMethods o b.statics
    h.hide global b.name (.object o)

end Heap

namespace Builtin

/-- The constructor of a kind of errors, or of plain ones. -/
def error (kind : Option ErrorKind) (methods : List Method) : Builtin :=
  let name := (Native.error kind).name
  { name
    constructor := some (⟨.error kind, 1⟩, .ofErrorKind kind)
    methods
    properties := [("name", .string name), ("message", .string "")]
    statics := [] }

/-- The global names in the order in which they are added. -/
def all : List Builtin :=
  [{ name := "Object"
     constructor := some (⟨.object, 1⟩, .objectPrototype)
     methods := [⟨.objectToString, 0⟩, ⟨.objectValueOf, 0⟩, ⟨.hasOwnProperty, 1⟩]
     properties := []
     statics := [] },
   { name := "Function"
     constructor := some (⟨.function, 1⟩, .functionPrototype)
     methods := [⟨.functionCall, 1⟩, ⟨.functionApply, 2⟩, ⟨.functionToString, 0⟩]
     properties := []
     statics := [] },
   { name := "Array"
     constructor := some (⟨.array, 1⟩, .arrayPrototype)
     methods := [⟨.arrayPush, 1⟩, ⟨.arrayPop, 0⟩, ⟨.arrayJoin, 1⟩, ⟨.arrayToString, 0⟩]
     properties := []
     statics := [⟨.arrayIsArray, 1⟩] },
   error none [⟨.errorToString, 0⟩],
   error (some .typeError) [],
   error (some .referenceError) [],
   error (some .rangeError) [],
   error (some .syntaxError) [],
   { name := "console", constructor := none, methods := [], properties := []
     statics := [⟨.consoleLog, 0⟩] }]

end Builtin

/-- The heap before the first script. -/
def Heap.initial : Heap :=
  let h := Builtin.all.foldl Heap.install .bare
  let global := Intrinsic.global.ref
  let h := h.hide global "NaN" (.number notANumber)
  let h := h.hide global "Infinity" (.number positiveInfinity)
  h.hide global "undefined" .undefined

end ScriptEngine
