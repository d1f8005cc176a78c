import ScriptEngine.Code.Basic
import ScriptEngine.Heap.Native
import ScriptEngine.Heap.Properties

/-!
# Objects

An object has a class, a prototype and named properties.  Arrays, arguments objects and strings
also have elements, which are found under the texts of their indices.

## Main definitions

* `arrayIndex?` : the index that a key stands for.
* `Object` : an object.
* `Object.getOwn?`, `Object.hasOwn`, `Object.putOwn`, `Object.defineOwn`, `Object.deleteOwn` : its
  own properties.
* `Object.ownKeys`, `Object.isOwnEnumerable` : what loops over it see.
-/

namespace ScriptEngine

/-- The place of a record of captured variables. -/
abbrev RecordRef := Nat

/-- The index that a key stands for: decimal digits without a leading zero, below `2 ^ 32 - 1`. -/
def arrayIndex? (key : String) : Option Nat :=
  let digits := key.toList
  if digits.isEmpty || !digits.all Char.isDigit then none
  else if digits.length > 1 && digits.head? == some '0' then none
  else if digits.length > 10 then none
  else
    let n := Numeral.digitsValue digits
    if n < 4294967295 then some n else none

/-- What a function object runs. -/
inductive Callable where
  /-- Code of a script, with the record of captured variables where it was made. -/
  | script (code : FunctionCode) (scope : Option RecordRef)
  | native (f : Native)

/-- The name that a function was compiled or registered with. -/
def Callable.name : Callable → String
  | .script code _ => code.info.name
  | .native f => f.name

/-- The classes of objects, with the data that only they have. -/
inductive ObjectClass where
  | ordinary
  | array (elements : Array Value)
  | function (f : Callable)
  /-- The arguments of a call, which also keep its parameters: the first `length` values are
  elements, the others belong to parameters without an argument. -/
  | arguments (values : Array Value) (length : Nat)
  | error
  | boolean (b : Bool)
  | number (x : Float)
  | string (s : String)
  | regularExpression
deriving Inhabited

/-- The name of a class. -/
def ObjectClass.name : ObjectClass → String
  | .ordinary => "Object"
  | .array _ => "Array"
  | .function _ => "Function"
  | .arguments .. => "Arguments"
  | .error => "Error"
  | .boolean _ => "Boolean"
  | .number _ => "Number"
  | .string _ => "String"
  | .regularExpression => "RegExp"

/-- An object. -/
structure Object where
  cls : ObjectClass
  prototype : Option Ref
  properties : PropertyMap
deriving Inhabited

/-- An array filled up with `undefined` to `n` values. -/
def padded (values : Array Value) (n : Nat) : Array Value :=
  values ++ Array.replicate (n - values.size) .undefined

/-- An array with the first `n` of the given values, filled up with `undefined`. -/
def resized (values : Array Value) (n : Nat) : Array Value :=
  if n ≤ values.size then values.shrink n else padded values n

/-- Writes a value at an index, filling up with `undefined` before it. -/
def writtenAt (values : Array Value) (i : Nat) (v : Value) : Array Value :=
  if i < values.size then values.setIfInBounds i v else (padded values i).push v

/-- The length that an array takes when its `length` is written: an integer from `0` to
`2 ^ 32 - 1`. -/
def arrayLength? : Value → Option Nat
  | .number x =>
    match (Binary64.ofFloat x).integerPart? with
    | some n => if 0 ≤ n && n < 4294967296 then some n.toNat else none
    | none => none
  | _ => none

namespace Object

/-- An object without properties. -/
def plain (cls : ObjectClass) (prototype : Option Ref) : Object :=
  ⟨cls, prototype, .empty⟩

/-- Whether an object can be called. -/
def isCallable (o : Object) : Bool :=
  match o.cls with
  | .function _ => true
  | _ => false

/-- The number of elements. -/
def elementCount (o : Object) : Nat :=
  match o.cls with
  | .array elements => elements.size
  | .arguments _ length => length
  | .string s => Text.length16 s
  | _ => 0

/-- The value of an own property.  A key that is an index of an array or a string is an element or
nothing. -/
def getOwn? (o : Object) (key : String) : Option Value :=
  let named := (o.properties.get? key).map (·.value)
  match o.cls with
  | .array elements =>
    if key == "length" then some (.number (Float.ofNat elements.size))
    else
      match arrayIndex? key with
      | some i => elements[i]?
      | none => named
  | .arguments values length =>
    match arrayIndex? key with
    | some i => if i < length then values[i]? else named
    | none => named
  | .string s =>
    if key == "length" then some (.number (Float.ofNat (Text.length16 s)))
    else
      match arrayIndex? key with
      | some i => (Text.unitAt? s i).map .string
      | none => named
  | _ => named

/-- Whether there is an element at the index that a key stands for. -/
def hasElement (o : Object) (key : String) : Bool :=
  match o.cls with
  | .array _ | .arguments .. | .string _ =>
    match arrayIndex? key with
    | some i => i < o.elementCount
    | none => false
  | _ => false

/-- Whether `length` of an object counts its elements. -/
def hasLength (o : Object) : Bool :=
  match o.cls with
  | .array _ | .string _ => true
  | _ => false

/-- Whether there is an own property. -/
def hasOwn (o : Object) (key : String) : Bool :=
  (key == "length" && o.hasLength) || o.hasElement key || o.properties.contains key

/-- Whether an own property may be given a value: the length of an array must be a length. -/
def acceptsOwn (o : Object) (key : String) (value : Value) : Bool :=
  match o.cls with
  | .array _ => key != "length" || (arrayLength? value).isSome
  | _ => true

/-- Writes a named property. -/
def putNamed (o : Object) (key : String) (value : Value) : Object :=
  { o with properties := o.properties.put key value }

/-- Writes an own property, creating an enumerable one if there is none.  A value that is not
accepted changes nothing, and elements and `length` of a string stay as they are. -/
def putOwn (o : Object) (key : String) (value : Value) : Object :=
  match o with
  | ⟨.array elements, prototype, properties⟩ =>
    if key == "length" then
      match arrayLength? value with
      | some n => ⟨.array (resized elements n), prototype, properties⟩
      | none => ⟨.array elements, prototype, properties⟩
    else
      match arrayIndex? key with
      | some i => ⟨.array (writtenAt elements i value), prototype, properties⟩
      | none => ⟨.array elements, prototype, properties.put key value⟩
  | ⟨.arguments values length, prototype, properties⟩ =>
    match arrayIndex? key with
    | some i =>
      if i < length then ⟨.arguments (values.setIfInBounds i value) length, prototype, properties⟩
      else ⟨.arguments values length, prototype, properties.put key value⟩
    | none => ⟨.arguments values length, prototype, properties.put key value⟩
  | ⟨.string s, prototype, properties⟩ =>
    if key == "length" then ⟨.string s, prototype, properties⟩
    else
      match arrayIndex? key with
      | some i =>
        if i < Text.length16 s then ⟨.string s, prototype, properties⟩
        else ⟨.string s, prototype, properties.put key value⟩
      | none => ⟨.string s, prototype, properties.put key value⟩
  | o => o.putNamed key value

/-- Gives an own named property a value and a flag, whatever the elements are. -/
def defineOwn (o : Object) (key : String) (value : Value) (enumerable : Bool) : Object :=
  { o with properties := o.properties.define key value enumerable }

/-- Whether an own property cannot be deleted: `length` of arrays and strings, and the elements of
strings. -/
def isPermanent (o : Object) (key : String) : Bool :=
  match o.cls with
  | .array _ => key == "length"
  | .string _ => key == "length" || o.hasElement key
  | _ => false

/-- Deletes a named property. -/
def deleteNamed (o : Object) (key : String) : Object :=
  { o with properties := o.properties.erase key }

/-- Deletes an own property unless it is permanent.  A deleted element of an array or of an
arguments object becomes `undefined`. -/
def deleteOwn (o : Object) (key : String) : Object :=
  match o with
  | ⟨.array elements, prototype, properties⟩ =>
    if key == "length" then ⟨.array elements, prototype, properties⟩
    else
      match arrayIndex? key with
      | some i =>
        if i < elements.size then
          ⟨.array (elements.setIfInBounds i .undefined), prototype, properties⟩
        else ⟨.array elements, prototype, properties.erase key⟩
      | none => ⟨.array elements, prototype, properties.erase key⟩
  | ⟨.arguments values length, prototype, properties⟩ =>
    match arrayIndex? key with
    | some i =>
      if i < length then
        ⟨.arguments (values.setIfInBounds i .undefined) length, prototype, properties⟩
      else ⟨.arguments values length, prototype, properties.erase key⟩
    | none => ⟨.arguments values length, prototype, properties.erase key⟩
  | ⟨.string s, prototype, properties⟩ =>
    if (Object.mk (.string s) prototype properties).isPermanent key then
      ⟨.string s, prototype, properties⟩
    else ⟨.string s, prototype, properties.erase key⟩
  | o => o.deleteNamed key

/-- Whether loops visit an own property; they visit all elements without a named property. -/
def isOwnEnumerable (o : Object) (key : String) : Bool :=
  match o.properties.get? key with
  | some e => e.enumerable
  | none => o.hasOwn key

/-- The own keys: the indices of the elements, then the named properties. -/
def ownKeys (o : Object) (enumerableOnly : Bool) : List String :=
  (List.range o.elementCount).map Nat.repr ++
    (o.properties.entries.filter fun e => e.enumerable || !enumerableOnly).map (·.key)

/-- The value of a parameter that an arguments object keeps. -/
def parameter (o : Object) (index : Nat) : Value :=
  match o.cls with
  | .arguments values _ => values[index]?.getD .undefined
  | _ => .undefined

/-- Writes a parameter that an arguments object keeps; other objects stay as they are. -/
def setParameter (o : Object) (index : Nat) (v : Value) : Object :=
  match o with
  | ⟨.arguments values length, prototype, properties⟩ =>
    ⟨.arguments (writtenAt values index v) length, prototype, properties⟩
  | o => o

end Object

end ScriptEngine
