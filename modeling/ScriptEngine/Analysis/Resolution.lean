import ScriptEngine.Analysis.StaticError
import ScriptEngine.Analysis.Variable

/-!
# Resolution of names

Every identifier occurrence gets the variable it denotes, and every variable that a nested function
uses is noted as captured.  The scopes open at a place are an environment: one level per enclosing
body, each with the `catch` and `with` scopes open in that body.  Within a level these come before
the names that the body declares.

## Main definitions

* `ScopeEntry`, `ScopeLevel`, `Environment` : the scopes open at a place.
* `Environment.find` : the innermost binding of a name, and the `with` objects in front of it.
* `Resolve.program` : the tables of a script's variables and bodies.
-/

namespace ScriptEngine

/-- A scope opened inside a body. -/
inductive ScopeEntry where
  | catch_ (name : String) (holder : VariableId)
  | with_ (holder : VariableId)
deriving Repr

/-- One body with the scopes open in it, innermost first. -/
structure ScopeLevel where
  body : FunctionId
  entries : List ScopeEntry
deriving Repr

/-- The scopes open at a place, innermost body first. -/
abbrev Environment := List ScopeLevel

/-- Where a search for a name ended: its variable and whether it lies in an enclosing body, with the
holders of the `with` objects passed on the way, innermost first. -/
structure Lookup where
  found : Option (VariableId × Bool)
  withs : List VariableId
deriving Repr

/-- Searches the scopes open in one body. -/
def searchEntries (name : String) : List ScopeEntry → Option VariableId × List VariableId
  | [] => (none, [])
  | .catch_ bound v :: rest => if bound == name then (some v, []) else searchEntries name rest
  | .with_ v :: rest =>
    let (found, withs) := searchEntries name rest
    (found, v :: withs)

/-- The innermost binding of a name.  `outer` says whether the head of the environment encloses the
body that asks. -/
def Environment.find (a : Analysis) (name : String) (outer : Bool) : Environment → Lookup
  | [] => ⟨none, []⟩
  | level :: rest =>
    match searchEntries name level.entries with
    | (some v, withs) => ⟨some (v, outer), withs⟩
    | (none, withs) =>
      match (a.body level.body).declared.get? name with
      | some v => ⟨some (v, outer), withs⟩
      | none =>
        let more := Environment.find a name true rest
        ⟨more.found, withs ++ more.withs⟩

/-- The names that strict code may not bind. -/
def isRestrictedName (name : String) : Bool :=
  name == "eval" || name == "arguments"

/-- The tables being filled, and the number of names made up so far. -/
structure Resolving where
  analysis : Analysis
  madeUp : Nat

/-- Resolution with tables and errors. -/
abbrev Resolve := StateT Resolving (Except StaticError)

namespace Resolve

/-! ### Tables -/

/-- The current tables. -/
def tables : Resolve Analysis := do
  return (← get).analysis

/-- Changes the tables. -/
def modifyTables (f : Analysis → Analysis) : Resolve Unit :=
  modify fun s => { s with analysis := f s.analysis }

/-- Changes what is known about a body. -/
def modifyBody (id : FunctionId) (f : BodyInfo → BodyInfo) : Resolve Unit :=
  modifyTables fun a => { a with bodies := a.bodies.modify id f }

/-- Changes a variable. -/
def modifyVariable (id : VariableId) (f : Variable → Variable) : Resolve Unit :=
  modifyTables fun a => { a with vars := a.vars.modify id f }

/-- Notes the variable of an identifier occurrence. -/
def setReference (node : NodeId) (v : VariableId) : Resolve Unit :=
  modifyTables fun a => { a with references := a.references.setIfInBounds node (some v) }

/-- Notes the variable that holds the object of a `with` statement. -/
def setWithVariable (node : NodeId) (v : VariableId) : Resolve Unit :=
  modifyTables fun a => { a with withVariables := a.withVariables.setIfInBounds node (some v) }

/-- Adds a variable. -/
def addVariable (v : Variable) : Resolve VariableId := do
  let id := (← tables).vars.size
  modifyTables fun a => { a with vars := a.vars.push v }
  return id

/-- Adds a variable that a body declares. -/
def declare (body : FunctionId) (name : String) (kind : VariableKind) : Resolve VariableId := do
  let id ← addVariable (.plain name kind body)
  modifyBody body fun b => { b with declared := b.declared.insert name id }
  return id

/-- The variable of a name that a body declares, added if it is new. -/
def declareOnce (body : FunctionId) (name : String) (kind : VariableKind) :
    Resolve VariableId := do
  match ((← tables).body body).declared.get? name with
  | some v => return v
  | none => declare body name kind

/-- The global variable of a name. -/
def declareGlobal (name : String) : Resolve VariableId :=
  declareOnce 0 name .global

/-- A fresh number for a name made up. -/
def freshNumber : Resolve Nat :=
  modifyGet fun s => (s.madeUp + 1, { s with madeUp := s.madeUp + 1 })

/-- Notes that a nested function uses a variable. -/
def capture (id : VariableId) : Resolve Unit := do
  let v := (← tables).var id
  if v.isCapturable then
    modifyBody v.body fun b =>
      if b.closedOver.contains id then b else { b with closedOver := b.closedOver ++ [id] }

/-! ### Names -/

/-- The body at the head of an environment. -/
def current : Environment → FunctionId
  | level :: _ => level.body
  | [] => 0

/-- Whether the body at the head of an environment is strict. -/
def isStrict (env : Environment) : Resolve Bool := do
  return ((← tables).body (current env)).strict

/-- Notes the use of those among the given variables that another body owns. -/
def captureForeign (body : FunctionId) : List VariableId → Resolve Unit
  | [] => pure ()
  | w :: rest => do
    if ((← tables).var w).body != body then capture w
    captureForeign body rest

/-- The variable that a search for a name ended at; a name bound nowhere is global. -/
def lookedUp (name : String) : Option (VariableId × Bool) → Resolve VariableId
  | some (v, outer) => do
    if outer then capture v
    return v
  | none => declareGlobal name

/-- The variable that a name denotes in an environment.  Inside `with` statements it is a variable
of its own, for the objects are asked at run time. -/
def resolve (env : Environment) (name : String) : Resolve VariableId := do
  let lookup := env.find (← tables) name false
  let target ← lookedUp name lookup.found
  if lookup.withs.isEmpty then
    return target
  else
    let body := current env
    captureForeign body lookup.withs
    let a ← tables
    addVariable
      { Variable.plain name .withScope body with
        fallback := some target
        withChain := lookup.withs.map fun w => (w, (a.var w).body) }

/-- Resolves an identifier occurrence. -/
def identifier (env : Environment) (i : Identifier) : Resolve Unit := do
  let v ← resolve env i.name
  setReference i.id v

/-- Rejects a restricted name in strict code. -/
def checkName (strict : Bool) (name : String) : Resolve Unit :=
  if strict && isRestrictedName name then throw (.restrictedName name) else pure ()

/-- Rejects restricted and repeated parameters of strict functions. -/
def checkParameters (seen : List String) : List Identifier → Resolve Unit
  | [] => pure ()
  | p :: rest => do
    checkName true p.name
    if seen.contains p.name then throw (.duplicateParameter p.name)
    checkParameters (p.name :: seen) rest

/-- Rejects an assignment to a restricted name in strict code. -/
def checkTarget (env : Environment) : Target → Resolve Unit
  | .identifier i => do checkName (← isStrict env) i.name
  | .member _ => pure ()

/-! ### Bodies -/

/-- Declares the parameters of a function.  A repeated name binds the last position. -/
def declareParameters (body : FunctionId) (position : Nat) : List Identifier → Resolve Unit
  | [] => pure ()
  | p :: rest => do
    let v ← declareOnce body p.name .parameter
    modifyVariable v fun x => { x with index := some position }
    modifyBody body fun b => { b with params := b.params ++ [v] }
    setReference p.id v
    declareParameters body (position + 1) rest

/-- Declares the functions of a body. -/
def declareFunctions (body : FunctionId) (kind : VariableKind) : List Func → Resolve Unit
  | [] => pure ()
  | f :: rest => do
    let v ← declareOnce body f.name kind
    match f.identifier? with
    | some i =>
      modifyVariable v fun x => { x with hoisted := true }
      setReference i.id v
    | none => pure ()
    declareFunctions body kind rest

/-- Declares the variables of a body. -/
def declareVariables (body : FunctionId) (kind : VariableKind) : List String → Resolve Unit
  | [] => pure ()
  | name :: rest => do
    let _ ← declareOnce body name kind
    declareVariables body kind rest

/-- Declares the name of a function expression inside its body, unless the body hides it. -/
def declareSelf (id : FunctionId) (name : Identifier) : Resolve Unit := do
  if !((← tables).body id).declared.contains name.name then
    let v ← declare id name.name .local
    modifyVariable v fun x => { x with valueType := .object, immutable := true }
    modifyBody id fun b => { b with selfBinding := some v }
    setReference name.id v

/-- Declares all that a function binds in its body. -/
def declareBody (f : Func) : Resolve Unit := do
  let id := f.id
  declareParameters id 0 f.params
  if !((← tables).body id).declared.contains "arguments" then
    let v ← declare id "arguments" .arguments
    modifyBody id fun b => { b with arguments := some v }
  declareVariables id .local (declaredNames f.body)
  declareFunctions id .local (bodyFunctions f.body)
  match f.isExpression, f.identifier? with
  | true, some name => declareSelf id name
  | _, _ => pure ()

/-- Opens the body of a function: checks its names, links it to the enclosing body, and declares
what it binds.  The result is the environment inside. -/
def enter (env : Environment) (f : Func) : Resolve Environment := do
  let strict := f.strict || (← isStrict env)
  if strict then
    match f.identifier? with
    | some name => checkName true name.name
    | none => pure ()
    checkParameters [] f.params
  modifyBody f.id fun b => { b with parent := some (current env), strict, name := f.name }
  declareBody f
  return ⟨f.id, []⟩ :: env

/-- The environment of a function declaration: it is made when its body is entered, so the scopes
open at its place do not count. -/
def hoistedEnvironment : Environment → Environment
  | level :: rest => { level with entries := [] } :: rest
  | [] => []

/-- Opens a scope in the body at the head of an environment. -/
def openScope (entry : ScopeEntry) : Environment → Environment
  | level :: rest => { level with entries := entry :: level.entries } :: rest
  | [] => []

/-- Adds a variable that the source does not declare to the body at the head. -/
def addSynthetic (env : Environment) (v : Variable) : Resolve VariableId := do
  let id ← addVariable v
  modifyBody (current env) fun b => { b with synthetic := b.synthetic ++ [id] }
  return id

/-- Opens the scope of a `catch` clause. -/
def enterCatch (env : Environment) (param : Identifier) : Resolve Environment := do
  checkName (← isStrict env) param.name
  let n ← freshNumber
  let v ← addSynthetic env
    { Variable.plain param.name .local (current env) with storageName := s!"%catch{n}" }
  setReference param.id v
  return openScope (.catch_ param.name v) env

/-- Opens the scope of a `with` statement. -/
def enterWith (env : Environment) (node : NodeId) : Resolve Environment := do
  let n ← freshNumber
  let v ← addSynthetic env
    { Variable.plain s!"%with{n}" .local (current env) with valueType := .object }
  setWithVariable node v
  return openScope (.with_ v) env

/-! ### Statements and expressions -/

mutual

/-- Resolves the names in an expression. -/
def expr (env : Environment) : Expr → Resolve Unit
  | .literal .. => pure ()
  | .this _ => pure ()
  | .identifier i => identifier env i
  | .array _ elements => elementList env elements
  | .object _ properties => propertyList env properties
  | .function f => func env f
  | .unary _ op argument => do
    match op, argument with
    | .delete, .identifier i =>
      if ← isStrict env then throw (.deleteOfIdentifier i.name)
    | _, _ => pure ()
    expr env argument
  | .update _ _ t _ => do
    checkTarget env t
    target env t
  | .binary _ _ left right => do
    expr env left
    expr env right
  | .logical _ _ left right => do
    expr env left
    expr env right
  | .assign _ _ t value => do
    checkTarget env t
    target env t
    expr env value
  | .conditional _ test consequent alternate => do
    expr env test
    expr env consequent
    expr env alternate
  | .call _ callee arguments => do
    expr env callee
    exprList env arguments
  | .construct _ callee arguments => do
    expr env callee
    exprList env arguments
  | .sequence _ expressions => exprList env expressions
  | .member m => member env m

/-- Resolves the names in several expressions. -/
def exprList (env : Environment) : List Expr → Resolve Unit
  | [] => pure ()
  | e :: rest => do
    expr env e
    exprList env rest

/-- Resolves the names in the elements of an array. -/
def elementList (env : Environment) : List (Option Expr) → Resolve Unit
  | [] => pure ()
  | none :: rest => elementList env rest
  | some e :: rest => do
    expr env e
    elementList env rest

/-- Resolves the names in the properties of an object. -/
def propertyList (env : Environment) : List Property → Resolve Unit
  | [] => pure ()
  | .mk _ _ value :: rest => do
    expr env value
    propertyList env rest

/-- Resolves the names in a property reference. -/
def member (env : Environment) : Member → Resolve Unit
  | .named _ object _ => expr env object
  | .computed _ object property => do
    expr env object
    expr env property

/-- Resolves the names in what is assigned to. -/
def target (env : Environment) : Target → Resolve Unit
  | .identifier i => identifier env i
  | .member m => member env m

/-- Resolves the names in a function. -/
def func (env : Environment) : Func → Resolve Unit
  | .mk span id name params strict isExpression bodySpan body => do
    let inner ← enter env (.mk span id name params strict isExpression bodySpan body)
    stmtList inner body

/-- Resolves the names in statements. -/
def stmtList (env : Environment) : List Stmt → Resolve Unit
  | [] => pure ()
  | s :: rest => do
    stmt env s
    stmtList env rest

/-- Resolves the names in a declaration. -/
def declaratorList (env : Environment) : List Declarator → Resolve Unit
  | [] => pure ()
  | .mk _ name none :: rest => do
    identifier env name
    declaratorList env rest
  | .mk _ name (some init) :: rest => do
    identifier env name
    expr env init
    declaratorList env rest

/-- Resolves the names in the clauses of a `switch`. -/
def clauseList (env : Environment) : List SwitchClause → Resolve Unit
  | [] => pure ()
  | .mk _ none body :: rest => do
    stmtList env body
    clauseList env rest
  | .mk _ (some test) body :: rest => do
    expr env test
    stmtList env body
    clauseList env rest

/-- Resolves the names in a block. -/
def block (env : Environment) : Block → Resolve Unit
  | .mk _ body => stmtList env body

/-- Resolves the names in a `catch` clause. -/
def handler (env : Environment) : Handler → Resolve Unit
  | .mk _ param body => do
    let inner ← enterCatch env param
    block inner body

/-- Resolves the names in a statement. -/
def stmt (env : Environment) : Stmt → Resolve Unit
  | .expression _ e => expr env e
  | .block b => block env b
  | .empty _ => pure ()
  | .debugger _ => pure ()
  | .brk .. => pure ()
  | .cont .. => pure ()
  | .ret _ none => pure ()
  | .ret _ (some e) => expr env e
  | .labeled _ _ body => stmt env body
  | .conditional _ test consequent none => do
    expr env test
    stmt env consequent
  | .conditional _ test consequent (some alternate) => do
    expr env test
    stmt env consequent
    stmt env alternate
  | .switch _ discriminant clauses => do
    expr env discriminant
    clauseList env clauses
  | .throw _ e => expr env e
  | .tryCatch _ b h f => do
    block env b
    match h with
    | some h => handler env h
    | none => pure ()
    match f with
    | some f => block env f
    | none => pure ()
  | .while _ test body => do
    expr env test
    stmt env body
  | .doWhile _ test body => do
    expr env test
    stmt env body
  | .for _ init test update body => do
    match init with
    | .nothing => pure ()
    | .declaration _ ds => declaratorList env ds
    | .expression e => expr env e
    match test with
    | some e => expr env e
    | none => pure ()
    match update with
    | some e => expr env e
    | none => pure ()
    stmt env body
  | .forIn _ left right body => do
    match left with
    | .declaration i => identifier env i
    | .target t => target env t
    expr env right
    stmt env body
  | .with _ id object body => do
    if ← isStrict env then throw .withInStrictMode
    expr env object
    let inner ← enterWith env id
    stmt inner body
  | .declaration _ ds => declaratorList env ds
  | .function f => func (hoistedEnvironment env) f

end

/-- Resolves the names in a script. -/
def script (strict : Bool) (p : Program) : Resolve Unit := do
  modifyBody 0 fun b => { b with strict := p.strict || strict, name := "%program" }
  declareVariables 0 .global (declaredNames p.body)
  declareFunctions 0 .global (bodyFunctions p.body)
  stmtList [⟨0, []⟩] p.body

/-- The tables of a script after resolution; `strict` makes all of it strict. -/
def program (strict : Bool) (p : Program) : Except StaticError Analysis :=
  match (script strict p).run ⟨.initial p.functionCount p.nodeCount, 0⟩ with
  | .ok (_, s) => .ok s.analysis
  | .error e => .error e

end Resolve

end ScriptEngine
