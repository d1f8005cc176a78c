import ScriptEngine.Analysis.Variable

/-!
# Records of captured variables

A body whose variables nested functions use keeps these variables in a record, and each record is
linked to that of the nearest enclosing body that has one.  All captured parameters share the field
of the arguments object, through which they are read and written.

## Main definitions

* `argumentsField` : the field of the arguments object.
* `Analysis.fieldName` : the field of a captured variable.
* `Analysis.capturingAncestor?` : the nearest enclosing body with a record.
* `Analysis.withLayouts` : the tables with all record layouts.
-/

namespace ScriptEngine

/-- The field that stands for the arguments object and for every captured parameter. -/
def argumentsField : String := "arguments"

/-- Inserts a name into an ascending list of distinct names. -/
def insertName (name : String) : List String → List String
  | [] => [name]
  | s :: rest =>
    if name == s then s :: rest
    else if name < s then name :: s :: rest
    else s :: insertName name rest

/-- The distinct names of a list, ascending. -/
def sortedNames (names : List String) : List String :=
  names.foldr insertName []

namespace Analysis

/-- The field of a captured variable. -/
def fieldName (a : Analysis) (v : VariableId) : String :=
  match (a.var v).kind with
  | .parameter | .arguments => argumentsField
  | _ => (a.var v).storageName

/-- The nearest body with captured variables, from a body on outwards; `fuel` bounds the number of
bodies passed. -/
def capturingBody? (a : Analysis) : Nat → Option FunctionId → Option FunctionId
  | 0, _ => none
  | _, none => none
  | fuel + 1, some id =>
    if (a.body id).closedOver.isEmpty then a.capturingBody? fuel (a.body id).parent else some id

/-- The nearest enclosing body with captured variables. -/
def capturingAncestor? (a : Analysis) (id : FunctionId) : Option FunctionId :=
  a.capturingBody? a.bodies.size (a.body id).parent

/-- The layout of the record that is current where a body is entered. -/
def enclosingLayout? (a : Analysis) (id : FunctionId) : Option LayoutId :=
  (a.capturingAncestor? id).bind fun p => (a.body p).layout

/-- Adds the layout of a body's record, if the body has captured variables.  The layouts of
enclosing bodies are there already. -/
def addLayout (a : Analysis) (id : FunctionId) : Analysis :=
  let captured := (a.body id).closedOver
  if captured.isEmpty then a
  else
    let fields := sortedNames (captured.map a.fieldName)
    { a with
      layouts := a.layouts.push ⟨id, a.enclosingLayout? id, fields⟩
      bodies := a.bodies.modify id fun b => { b with layout := some a.layouts.size } }

/-- Notes the layout of the record that a function takes along. -/
def linkParentLayout (a : Analysis) (id : FunctionId) : Analysis :=
  let parent := a.enclosingLayout? id
  { a with bodies := a.bodies.modify id fun b => { b with parentLayout := parent } }

/-- Points a captured variable at its field. -/
def placeVariable (layout : LayoutId) (a : Analysis) (v : VariableId) : Analysis :=
  match (a.layout layout).fieldIndex? (a.fieldName v) with
  | some index =>
    { a with vars := a.vars.modify v fun x => { x with field := some ⟨layout, index⟩ } }
  | none => a

/-- Points the captured variables of a body at their fields. -/
def placeVariables (a : Analysis) (id : FunctionId) : Analysis :=
  match (a.body id).layout with
  | some layout => (a.body id).closedOver.foldl (placeVariable layout) a
  | none => a

/-- The tables with the layouts of all records.  An enclosing body has a smaller number, so its
layout comes first. -/
def withLayouts (a : Analysis) : Analysis :=
  let ids := List.range a.bodies.size
  ids.foldl placeVariables (ids.foldl linkParentLayout (ids.foldl addLayout a))

end Analysis

end ScriptEngine
