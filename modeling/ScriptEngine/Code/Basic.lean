import ScriptEngine.Code.Operation

/-!
# Code

What scripts are compiled to: trees in which every name has a place and every result a
representation.

## Main definitions

* `Storage`, `Binding`, `Access` : where the value of a name is found.
* `Code ρ` : code that yields a result in the representation `ρ`.
* `Reference` : code for a place that can be read and written.
* `StatementCode`, `FunctionCode` : code of statements and of whole bodies.
* `FrameLayout`, `FunctionInfo` : what a body needs before it runs.
-/

namespace ScriptEngine

/-! ### Places of variables -/

/-- A field of a record, the record being given by its number in the frame. -/
structure FieldAddress where
  record : Nat
  index : Nat
deriving Repr, DecidableEq, Inhabited

/-- Where the value of a variable is kept. -/
inductive Storage where
  | global (name : String)
  /-- A parameter, kept in the arguments object: that of the frame, or the one in a record. -/
  | parameter (index : Nat) (via : Option FieldAddress)
  | slot (ρ : Rep) (index : Nat)
  | field (address : FieldAddress)
deriving Repr, DecidableEq, Inhabited

/-- A variable: its storage, and its name if it may not be assigned. -/
structure Binding where
  storage : Storage
  constant : Option String
deriving Repr, DecidableEq, Inhabited

/-- A name: the variables that hold the objects to look it up in, innermost first, and the variable
it denotes if none of them has it. -/
structure Access where
  name : String
  scopes : List Binding
  binding : Binding
deriving Repr, DecidableEq, Inhabited

/-- The innermost statement that a jump leaves or continues, by its depth of nesting. -/
abbrev TargetId := Nat

/-! ### Bodies -/

/-- The numbers of slots of a body, by representation, and of the records that it reaches. -/
structure FrameLayout where
  values : Nat
  doubles : Nat
  booleans : Nat
  strings : Nat
  records : Nat
  /-- The number of fields of the record that the body allocates. -/
  ownFields : Option Nat
deriving Repr, DecidableEq, Inhabited

/-- What is known about a body apart from its code. -/
structure FunctionInfo where
  name : String
  id : FunctionId
  paramCount : Nat
  strict : Bool
  isProgram : Bool
  layout : FrameLayout
  /-- How many links up each record that the body reaches is. -/
  recordHops : List Nat
  /-- The field of the own record that takes the arguments object. -/
  argumentsField : Option Nat
  /-- The slot that takes the arguments object. -/
  argumentsSlot : Option Nat
  /-- The names that a script declares globally. -/
  globals : List String
deriving Repr, Inhabited

/-! ### Code -/

mutual

/-- Code that yields a result in a representation. -/
inductive Code : Rep → Type where
  | constant {ρ : Rep} (result : ρ.Carrier) : Code ρ
  | regularExpression (pattern flags : String) : Code .boxed
  | this : Code .boxed
  /-- The function that runs. -/
  | callee : Code .boxed
  | array (elements : List (Code .boxed)) : Code .boxed
  | object (properties : List PropertyCode) : Code .boxed
  | function (f : FunctionCode) : Code .boxed
  | slot (ρ : Rep) (index : Nat) : Code ρ
  | storeSlot (ρ : Rep) (index : Nat) (value : Code ρ) : Code ρ
  | stepSlot (index : Nat) (step : Float) (before : Bool) : Code .double
  /-- Reads a place; a global that is not there is an error, unless `lenient`. -/
  | load (place : Reference) (lenient : Bool) : Code .boxed
  | store (place : Reference) (value : Code .boxed) : Code .boxed
  /-- Reads a place, combines its value with another one, and writes the place. -/
  | combine (place : Reference) (op : BinaryOp) (value : Code .boxed) : Code .boxed
  /-- Adds to the number at a place, yielding the new one if `before` and the old one otherwise. -/
  | step (place : Reference) (step : Float) (before : Bool) : Code .double
  | delete (place : Reference) : Code .boolean
  | unary {ρ σ : Rep} (form : UnaryForm ρ σ) (operand : Code ρ) : Code σ
  | binary {ρ σ τ : Rep} (form : BinaryForm ρ σ τ) (left : Code ρ) (right : Code σ) : Code τ
  | logical (ρ : Rep) (op : LogicalOp) (left right : Code ρ) : Code ρ
  | conditional {ρ : Rep} (test : Code .boolean) (consequent alternate : Code ρ) : Code ρ
  | sequence {ρ σ : Rep} (first : Code ρ) (rest : Code σ) : Code σ
  /-- Calls the function at a place; a property's object is its `this`. -/
  | callPlace (callee : Reference) (arguments : List (Code .boxed)) : Code .boxed
  | call (callee : Code .boxed) (arguments : List (Code .boxed)) : Code .boxed
  | construct (callee : Code .boxed) (arguments : List (Code .boxed)) : Code .boxed

/-- Code of one property of an object literal. -/
inductive PropertyCode : Type where
  | mk (key : String) (value : Code .boxed)

/-- Code of a place that can be read and written. -/
inductive Reference : Type where
  | name (access : Access)
  | member (object key : Code .boxed)

/-- Code of a statement. -/
inductive StatementCode : Type where
  | block (statements : List StatementCode)
  | effect {ρ : Rep} (code : Code ρ)
  /-- An expression whose value is that of the script so far. -/
  | complete (code : Code .boxed)
  | ret (code : Code .boxed)
  | brk (target : TargetId)
  | cont (target : TargetId)
  | labeled (target : TargetId) (body : StatementCode)
  | branch (test : Code .boolean) (consequent alternate : StatementCode)
  /-- Keeps the discriminant in a slot while the tests are tried. -/
  | switch (target : TargetId) (slot : Nat) (discriminant : Code .boxed)
      (clauses : List ClauseCode)
  | throw (code : Code .boxed)
  | tryCatch (body : StatementCode) (param : Access) (handler : StatementCode)
  | tryFinally (body finalizer : StatementCode)
  /-- Tests, runs the body and updates, as long as the test holds. -/
  | loop (target : TargetId) (test : Code .boolean) (update body : StatementCode)
  /-- Runs the body and tests, as long as the test holds. -/
  | repeat (target : TargetId) (body : StatementCode) (test : Code .boolean)
  | forIn (target : TargetId) (place : Reference) (object : Code .boxed) (body : StatementCode)

/-- Code of one clause of a `switch`. -/
inductive ClauseCode : Type where
  | case (test : Code .boolean) (body : StatementCode)
  | otherwise (body : StatementCode)

/-- Code of a function or of a script.  The entry makes the functions that the body declares. -/
inductive FunctionCode : Type where
  | mk (info : FunctionInfo) (entry body : StatementCode)

end

/-- What is known about a function apart from its code. -/
def FunctionCode.info : FunctionCode → FunctionInfo
  | .mk info .. => info

/-- Code in some representation. -/
structure TypedCode where
  rep : Rep
  code : Code rep

end ScriptEngine
