import ScriptEngine.Analysis.Variable

/-!
# Inference of value types

A variable that no nested function uses has a concrete type if its first write is a statement of its
own at the top of its body and every other write agrees with it.  Types only go up, and the script
is gone through until none changes, so that a variable typed by another one sees its final type.

## Main definitions

* `Inference` : the current types of the variables and the changes made to them.
* `Infer.expr`, `Infer.stmt` : one pass over an expression or statement.
* `Analysis.withTypes` : the tables with the inferred types.
* `Analysis.untyped` : the tables with no type known.
-/

namespace ScriptEngine

/-- One change of the type of a variable. -/
structure TypeUpdate where
  variableId : VariableId
  before : ValueType
  after : ValueType
deriving Repr, DecidableEq

/-- The current types of the variables, and the changes made to them in this pass. -/
structure Inference where
  types : Array ValueType
  /-- The latest change comes first. -/
  updates : List TypeUpdate
deriving Repr

/-- Whether a type has changed in this pass. -/
def Inference.changed (s : Inference) : Bool :=
  !s.updates.isEmpty

/-- Inference over the current types. -/
abbrev Infer := StateM Inference

namespace Infer

/-- Gives a variable a type. -/
def set (v : VariableId) (t : ValueType) : Infer Unit :=
  modify fun s =>
    match s.types[v]? with
    | some old =>
      if old = t then s
      else { types := s.types.setIfInBounds v t, updates := ⟨v, old, t⟩ :: s.updates }
    | none => s

/-- The current type of a variable. -/
def typeOf (v : VariableId) : Infer ValueType := do
  return ((← get).types[v]?).getD .unknown

/-- A read of a variable.  A read before any write may see `undefined`. -/
def read (v : VariableId) : Infer ValueType := do
  match ← typeOf v with
  | .unset =>
    set v .unknown
    return .unknown
  | t => return t

/-- A write of a variable.  The first one counts only if it always happens. -/
def write (v : VariableId) (t : ValueType) (always : Bool) : Infer Unit := do
  match ← typeOf v with
  | .unset => set v (if always then t.orUnknown else .unknown)
  | current => set v (current.merge t)

variable (reference? : Identifier → Option VariableId)

/-- A read of an identifier occurrence. -/
def readName (i : Identifier) : Infer ValueType :=
  match reference? i with
  | some v => read v
  | none => pure .unknown

/-- A write of an identifier occurrence. -/
def writeName (i : Identifier) (t : ValueType) (always : Bool) : Infer Unit :=
  match reference? i with
  | some v => write v t always
  | none => pure ()

mutual

/-- Goes through an expression and gives its type. -/
def expr : Expr → Infer ValueType
  | .literal _ value => pure value.valueType
  | .identifier i => readName reference? i
  | .this _ => pure .unknown
  | .array _ elements => do
    elementList elements
    return .object
  | .object _ properties => do
    propertyList properties
    return .object
  | .function f => do
    func f
    return .object
  | .unary _ op argument => do
    let _ ← expr argument
    return op.resultType
  | .update _ _ (.identifier i) _ => do
    let _ ← readName reference? i
    writeName reference? i .double false
    return .double
  | .update _ _ (.member m) _ => do
    member m
    return .double
  | .binary _ op left right => do
    let l ← expr left
    let r ← expr right
    return op.resultType l r
  | .logical _ _ left right => do
    let l ← expr left
    let r ← expr right
    return l.join r
  | .assign _ .plain (.identifier i) value => do
    let t ← expr value
    writeName reference? i t false
    return t
  | .assign _ (.compound op) (.identifier i) value => do
    let current ← readName reference? i
    let r ← expr value
    let t := op.resultType current r
    writeName reference? i t false
    return t
  | .assign _ op (.member m) value => do
    member m
    let r ← expr value
    match op with
    | .plain => return r
    | .compound op => return op.resultType .unknown r
  | .conditional _ test consequent alternate => do
    let _ ← expr test
    let c ← expr consequent
    let d ← expr alternate
    return c.join d
  | .call _ callee arguments => do
    let _ ← expr callee
    let _ ← exprList .unknown arguments
    return .unknown
  | .construct _ callee arguments => do
    let _ ← expr callee
    let _ ← exprList .unknown arguments
    return .object
  | .sequence _ expressions => exprList .unknown expressions
  | .member m => do
    member m
    return .unknown

/-- Goes through expressions and gives the type of the last one. -/
def exprList (last : ValueType) : List Expr → Infer ValueType
  | [] => pure last
  | e :: rest => do
    let t ← expr e
    exprList t rest

/-- Goes through the elements of an array. -/
def elementList : List (Option Expr) → Infer Unit
  | [] => pure ()
  | none :: rest => elementList rest
  | some e :: rest => do
    let _ ← expr e
    elementList rest

/-- Goes through the properties of an object. -/
def propertyList : List Property → Infer Unit
  | [] => pure ()
  | .mk _ _ value :: rest => do
    let _ ← expr value
    propertyList rest

/-- Goes through a property reference. -/
def member : Member → Infer Unit
  | .named _ object _ => do
    let _ ← expr object
  | .computed _ object property => do
    let _ ← expr object
    let _ ← expr property

/-- Goes through a function's body. -/
def func : Func → Infer Unit
  | .mk _ _ _ _ _ _ _ body => stmtList true body

/-- Goes through statements; `top` says whether they are those of a body itself. -/
def stmtList (top : Bool) : List Stmt → Infer Unit
  | [] => pure ()
  | s :: rest => do
    stmt top s
    stmtList top rest

/-- Goes through a declaration. -/
def declaratorList (top : Bool) : List Declarator → Infer Unit
  | [] => pure ()
  | .mk _ _ none :: rest => declaratorList top rest
  | .mk _ name (some init) :: rest => do
    let t ← expr init
    writeName reference? name t top
    declaratorList top rest

/-- Goes through the clauses of a `switch`. -/
def clauseList : List SwitchClause → Infer Unit
  | [] => pure ()
  | .mk _ none body :: rest => do
    stmtList false body
    clauseList rest
  | .mk _ (some test) body :: rest => do
    let _ ← expr test
    stmtList false body
    clauseList rest

/-- Goes through a block. -/
def block : Block → Infer Unit
  | .mk _ body => stmtList false body

/-- Goes through what the keys of a `for`-`in` loop are assigned to. -/
def forInTarget : ForInTarget → Infer Unit
  | .declaration i => writeName reference? i .string false
  | .target (.identifier i) => writeName reference? i .string false
  | .target (.member m) => member m

/-- Goes through a statement; `top` says whether it is one of a body itself.  A plain assignment at
the top of a body is a write that always happens. -/
def stmt (top : Bool) : Stmt → Infer Unit
  | .expression _ (.assign _ .plain (.identifier i) value) => do
    let t ← expr value
    writeName reference? i t top
  | .expression _ e => do
    let _ ← expr e
  | .block b => block b
  | .empty _ => pure ()
  | .debugger _ => pure ()
  | .brk .. => pure ()
  | .cont .. => pure ()
  | .ret _ none => pure ()
  | .ret _ (some e) => do
    let _ ← expr e
  | .throw _ e => do
    let _ ← expr e
  | .labeled _ _ body => stmt false body
  | .conditional _ test consequent none => do
    let _ ← expr test
    stmt false consequent
  | .conditional _ test consequent (some alternate) => do
    let _ ← expr test
    stmt false consequent
    stmt false alternate
  | .switch _ discriminant clauses => do
    let _ ← expr discriminant
    clauseList clauses
  | .tryCatch _ b h f => do
    block b
    match h with
    | some (.mk _ _ hb) => block hb
    | none => pure ()
    match f with
    | some fb => block fb
    | none => pure ()
  | .while _ test body => do
    let _ ← expr test
    stmt false body
  | .doWhile _ test body => do
    stmt false body
    let _ ← expr test
  | .for _ init test update body => do
    match init with
    | .nothing => pure ()
    | .declaration _ ds => declaratorList top ds
    | .expression (.assign _ .plain (.identifier i) value) => do
      let t ← expr value
      writeName reference? i t top
    | .expression e => do
      let _ ← expr e
    match test with
    | some e => do
      let _ ← expr e
    | none => pure ()
    stmt false body
    match update with
    | some e => do
      let _ ← expr e
    | none => pure ()
  | .forIn _ left right body => do
    let _ ← expr right
    forInTarget left
    stmt false body
  | .with _ _ object body => do
    let _ ← expr object
    stmt false body
  | .declaration _ ds => declaratorList top ds
  | .function f => func f

end

end Infer

/-- Passes over a script until no type changes; `fuel` bounds their number. -/
def inferPasses (a : Analysis) (body : List Stmt) : Nat → Array ValueType → Array ValueType
  | 0, types => types
  | fuel + 1, types =>
    let s := (Infer.stmtList a.reference? true body).run ⟨types, []⟩ |>.2
    if s.changed then inferPasses a body fuel s.types else s.types

namespace Analysis

/-- Whether a variable is some other one's fallback inside a `with` statement. -/
def fallbacks (a : Analysis) : List VariableId :=
  a.vars.toList.filterMap (·.fallback)

/-- Replaces a type that is unset. -/
def setUnset (t : ValueType) (types : Array ValueType) (v : VariableId) : Array ValueType :=
  types.modify v fun old => if old = .unset then t else old

/-- The types before the first pass.  Only locals that no nested function uses and no `with`
statement hides can get a concrete type; what a declaration or a `with` puts into them counts. -/
def seededTypes (a : Analysis) : Array ValueType :=
  let own := a.vars.map fun v =>
    if v.kind = .local && !v.isCaptured then v.valueType else .unknown
  let hidden := a.fallbacks.foldl (fun types v => types.setIfInBounds v .unknown) own
  let synthetic := (a.bodies.toList.flatMap (·.synthetic)).foldl (setUnset .unknown) hidden
  let hoisted := (List.range a.vars.size).filter fun v => (a.var v).hoisted
  hoisted.foldl (setUnset .object) synthetic

/-- Writes types into the tables. -/
def setTypes (a : Analysis) (types : Array ValueType) : Analysis :=
  { a with
    vars := a.vars.mapIdx fun i v =>
      { v with valueType := (types[i]?.getD .unknown).orUnknown } }

/-- The tables with the inferred types.  Each pass but the last raises a type, and a type can be
raised only twice. -/
def withTypes (a : Analysis) (body : List Stmt) : Analysis :=
  a.setTypes (inferPasses a body (2 * a.vars.size + 2) a.seededTypes)

/-- The tables with no type known. -/
def untyped (a : Analysis) : Analysis :=
  { a with vars := a.vars.map fun v => { v with valueType := .unknown } }

end Analysis

end ScriptEngine
