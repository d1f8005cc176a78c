import ScriptEngine.Analysis.ValueType

/-!
# Variables and bodies

The tables that the analysis of a script fills: its variables, its function bodies, the layouts of
the records that hold captured variables, and the variable of every identifier occurrence.

## Main definitions

* `NameTable` : the variables that a body declares, by name and in order.
* `Variable`, `BodyInfo`, `RecordLayout` : the entries of the tables.
* `Analysis` : the tables together.
-/

namespace ScriptEngine

/-- The number of a variable. -/
abbrev VariableId := Nat

/-- The number of a record layout. -/
abbrev LayoutId := Nat

/-! ### Name tables -/

/-- One name of a table: the variable it was declared with and the one it denotes now. -/
structure NameEntry where
  name : String
  first : VariableId
  current : VariableId
deriving Repr, Inhabited

/-- Variables by name, in the order of their first declaration. -/
structure NameTable where
  entries : List NameEntry
deriving Repr, Inhabited

namespace NameTable

/-- The table without names. -/
def empty : NameTable := ⟨[]⟩

/-- The variable that a name denotes. -/
def get? (t : NameTable) (name : String) : Option VariableId :=
  (t.entries.find? (·.name == name)).map (·.current)

/-- Whether a name is declared. -/
def contains (t : NameTable) (name : String) : Bool :=
  t.entries.any (·.name == name)

/-- Lets a name denote a variable.  A name that is there already keeps its place. -/
def insert (t : NameTable) (name : String) (id : VariableId) : NameTable :=
  if t.contains name then
    ⟨t.entries.map fun e => if e.name == name then { e with current := id } else e⟩
  else ⟨t.entries ++ [⟨name, id, id⟩]⟩

/-- The variables in the order of declaration. -/
def order (t : NameTable) : List VariableId :=
  t.entries.map (·.first)

/-- The number of names. -/
def size (t : NameTable) : Nat :=
  t.entries.length

end NameTable

/-! ### Variables -/

/-- What a variable is. -/
inductive VariableKind where
  | parameter
  | local
  | this
  | arguments
  | global
  /-- A name looked up in the objects of enclosing `with` statements first. -/
  | withScope
deriving Repr, DecidableEq, Inhabited

/-- Where a captured variable lives: a field of a record. -/
structure RecordField where
  layout : LayoutId
  index : Nat
deriving Repr, DecidableEq, Inhabited

/-- A variable of a script. -/
structure Variable where
  name : String
  /-- The name of its field when captured: its own name, or one made up. -/
  storageName : String
  /-- The position of a parameter. -/
  index : Option Nat
  kind : VariableKind
  /-- The body that owns it. -/
  body : FunctionId
  /-- Its field, once it is known to be captured. -/
  field : Option RecordField
  /-- The objects to look a name up in, innermost first: the variables that hold them and their
  bodies. -/
  withChain : List (VariableId × FunctionId)
  /-- The variable that a name denotes if no such object has it. -/
  fallback : Option VariableId
  valueType : ValueType
  /-- Assignments are ignored, or rejected in strict code. -/
  immutable : Bool
  /-- Whether a function declaration gives it its first value. -/
  hoisted : Bool
deriving Repr, Inhabited

namespace Variable

/-- A variable about which only the name, the kind and the owner are known. -/
def plain (name : String) (kind : VariableKind) (body : FunctionId) : Variable :=
  { name, storageName := name, index := none, kind, body, field := none, withChain := [],
    fallback := none, valueType := .unset, immutable := false, hoisted := false }

/-- Whether a nested function uses it. -/
def isCaptured (v : Variable) : Bool :=
  v.field.isSome

/-- Whether a record may hold it. -/
def isCapturable (v : Variable) : Bool :=
  match v.kind with
  | .local | .parameter | .arguments => true
  | _ => false

end Variable

/-! ### Bodies and records -/

/-- What is known about the body of a function or of the script. -/
structure BodyInfo where
  id : FunctionId
  parent : Option FunctionId
  name : String
  strict : Bool
  declared : NameTable
  params : List VariableId
  /-- The variable of the arguments object, unless a parameter hides it. -/
  arguments : Option VariableId
  /-- The name of a function expression inside its own body. -/
  selfBinding : Option VariableId
  /-- The parameters of `catch` clauses and the holders of `with` objects. -/
  synthetic : List VariableId
  /-- The variables that nested functions use, in the order of first use. -/
  closedOver : List VariableId
  /-- The layout of the record that an activation allocates. -/
  layout : Option LayoutId
  /-- The layout of the record that a function takes along when it is created. -/
  parentLayout : Option LayoutId
deriving Repr, Inhabited

/-- A body about which only its number is known. -/
def BodyInfo.plain (id : FunctionId) : BodyInfo :=
  { id, parent := none, name := "", strict := false, declared := .empty, params := [],
    arguments := none, selfBinding := none, synthetic := [], closedOver := [], layout := none,
    parentLayout := none }

/-- The layout of a record of captured variables. -/
structure RecordLayout where
  body : FunctionId
  /-- The layout of the record that such a record is linked to. -/
  parent : Option LayoutId
  /-- The names of the fields, ascending. -/
  fields : List String
deriving Repr, Inhabited

/-- The position of a field. -/
def RecordLayout.fieldIndex? (l : RecordLayout) (name : String) : Option Nat :=
  l.fields.findIdx? (· == name)

/-! ### The tables together -/

/-- All that is known about a script before it runs. -/
structure Analysis where
  vars : Array Variable
  /-- By function id. -/
  bodies : Array BodyInfo
  layouts : Array RecordLayout
  /-- By node id: the variable of an identifier occurrence. -/
  references : Array (Option VariableId)
  /-- By node id: the variable that holds the object of a `with` statement. -/
  withVariables : Array (Option VariableId)
deriving Repr, Inhabited

namespace Analysis

/-- The number of the variable `this`. -/
def thisVariable : VariableId := 0

/-- The tables before anything is known. -/
def initial (functionCount nodeCount : Nat) : Analysis :=
  { vars := #[.plain "this" .this 0]
    bodies := ((List.range (max functionCount 1)).map BodyInfo.plain).toArray
    layouts := #[]
    references := Array.replicate nodeCount none
    withVariables := Array.replicate nodeCount none }

/-- A variable. -/
def var (a : Analysis) (id : VariableId) : Variable :=
  a.vars[id]?.getD default

/-- A body. -/
def body (a : Analysis) (id : FunctionId) : BodyInfo :=
  a.bodies[id]?.getD default

/-- A record layout. -/
def layout (a : Analysis) (id : LayoutId) : RecordLayout :=
  a.layouts[id]?.getD default

/-- The variable of an identifier occurrence. -/
def reference? (a : Analysis) (i : Identifier) : Option VariableId :=
  a.references[i.id]?.join

/-- The variable that holds the object of a `with` statement. -/
def withVariable? (a : Analysis) (id : NodeId) : Option VariableId :=
  a.withVariables[id]?.join

/-- The names of the variables of a body that nested functions use, ascending. -/
def capturedNames (a : Analysis) (id : FunctionId) : List String :=
  ((a.body id).closedOver.map fun v => (a.var v).name).mergeSort (fun s t => s ≤ t)

/-- The variable that a name denotes among the declarations of a body. -/
def findDeclared? (a : Analysis) (id : FunctionId) (name : String) : Option Variable :=
  ((a.body id).declared.get? name).map a.var

end Analysis

end ScriptEngine
