import ScriptEngine.Analysis.Resolution
import ScriptEngine.Proofs.Script.Outline

/-!
# Scoping rules

What the tables of a script say about its names once all of them are resolved.  Every name denotes
what a search of the scopes around it finds, every body has the names that its function binds, and
every `catch` clause and `with` statement has a variable of its own.  An origin tells which clause
or statement such a variable belongs to.

## Main definitions

* `Analysis.Captured` : a variable is noted as used by a nested function.
* `Environment.Valid` : an environment is one of the tables.
* `Environment.Denotes` : a name denotes a variable in an environment.
* `Analysis.Takes`, `Analysis.Opens` : the tables have the body of a function, with its parameters.
* `Expr.Resolved`, `Stmt.Resolved` : all names in an expression or statement are resolved.
-/

namespace ScriptEngine

variable (a : Analysis)

/-! ### Environments -/

/-- A variable is noted as used by a nested function, if a record may hold it. -/
def Analysis.Captured (v : VariableId) : Prop :=
  (a.var v).isCapturable = true → v ∈ (a.body (a.var v).body).closedOver

/-- A variable that a name was resolved to uses another one: it is that one, or it stands for the
name inside of `with` statements and the other one holds such an object or is the variable behind
them. -/
def Analysis.Uses (v w : VariableId) : Prop :=
  v = w ∨ (a.var v).kind = .withScope ∧
    ((a.var v).fallback = some w ∨ w ∈ (a.var v).withChain.map Prod.fst)

/-- What kinds of variables a body may declare: the script declares global ones. -/
def declarableKinds (body : FunctionId) : List VariableKind :=
  if body = 0 then [.global] else [.parameter, .arguments, .local]

/-- A variable of a body has one of several kinds. -/
structure Analysis.Owns (body : FunctionId) (kinds : List VariableKind)
    (v : VariableId) : Prop where
  bound : v < a.vars.size
  body : (a.var v).body = body
  kind : (a.var v).kind ∈ kinds

/-- A variable gets its first value from a function declaration or from the call of its function. -/
def Variable.HoldsFunction (x : Variable) : Prop :=
  x.hoisted = true ∨ x.valueType = .object

/-- A node has a variable that a body declares and that holds a function when the body is
entered. -/
def Analysis.NamesFunction (body : FunctionId) (n : NodeId) : Prop :=
  ∃ v, a.references[n]? = some (some v) ∧ a.Owns body (declarableKinds body) v ∧
    (a.var v).HoldsFunction

/-- The variable of a scope opened inside a body. -/
def ScopeEntry.holder : ScopeEntry → VariableId
  | .catch_ _ v => v
  | .with_ v => v

/-- A scope opened inside a body has a variable that belongs to the body. -/
structure ScopeEntry.Valid (body : FunctionId) (e : ScopeEntry) : Prop where
  bound : e.holder < a.vars.size
  kind : (a.var e.holder).kind = .local
  owner : (a.var e.holder).body = body
  synthetic : e.holder ∈ (a.body body).synthetic
  name : ∀ x v, e = .catch_ x v → (a.var v).name = x

namespace Environment

/-- The bodies of an environment, innermost first. -/
def bodies (env : Environment) : List FunctionId :=
  env.map (·.body)

/-- An environment follows the nesting of bodies outwards to the script itself. -/
inductive Valid : Environment → Prop
  | script {entries : List ScopeEntry} (bound : 0 < a.bodies.size)
      (valid : ∀ e ∈ entries, e.Valid a 0) : Valid [⟨0, entries⟩]
  | inside {body : FunctionId} {entries : List ScopeEntry} {env : Environment}
      (bound : body < a.bodies.size) (above : Resolve.current env < body)
      (parent : (a.body body).parent = some (Resolve.current env))
      (arguments : (a.body body).declared.contains "arguments" = true)
      (valid : ∀ e ∈ entries, e.Valid a body) (outer : Valid env) : Valid (⟨body, entries⟩ :: env)

/-- A variable stands for a name that is looked up in the objects of `with` statements first. -/
structure Guards (env : Environment) (name : String) (target : VariableId) (withs : List VariableId)
    (v : VariableId) : Prop where
  bound : v < a.vars.size
  var : a.var v =
    { Variable.plain name .withScope (Resolve.current env) with
      fallback := some target
      withChain := withs.map fun w => (w, (a.var w).body) }
  captured : ∀ w ∈ withs, (a.var w).body ≠ Resolve.current env → a.Captured w

/-- A name denotes the variable that a search finds, or stands for it and the objects of the `with`
statements in front of it. -/
def Denotes (env : Environment) (name : String) (v : VariableId) : Prop :=
  ∃ target outer withs, env.find a name false = ⟨some (target, outer), withs⟩ ∧
    (outer = true → a.Captured target) ∧
    (withs = [] ∧ v = target ∨ withs ≠ [] ∧ env.Guards a name target withs v)

end Environment

/-! ### Bodies -/

/-- The names that a function binds in its body. -/
def Func.Binds (f : Func) (x : String) : Prop :=
  x ∈ f.params.map (·.name) ∨ x = "arguments" ∨ x ∈ bodyVarNames f.body ∨
    x ∈ (bodyFunctions f.body).map Func.name ∨
    f.isExpression = true ∧ ∃ i, f.identifier? = some i ∧ i.name = x

/-- What a name that a function binds in its body is. -/
def Func.bindingKind (f : Func) (x : String) : VariableKind :=
  if x ∈ f.params.map (·.name) then .parameter
  else if x = "arguments" then .arguments
  else .local

/-- A body has the variables of some parameters, each under its name.  The variable of a name knows
the last position at which the name stands. -/
structure Analysis.Takes (id : FunctionId) (ps : List Identifier) : Prop where
  params : (a.body id).params.map some = ps.map fun p => (a.body id).declared.get? p.name
  index : ∀ i p v, ps[i]? = some p → (a.body id).declared.get? p.name = some v →
    (∀ j q, i < j → ps[j]? = some q → q.name ≠ p.name) → (a.var v).index = some i

/-- The tables have the body of a function that stands in an environment. -/
structure Analysis.Opens (env : Environment) (f : Func) : Prop where
  bound : f.id < a.bodies.size
  above : Resolve.current env < f.id
  parent : (a.body f.id).parent = some (Resolve.current env)
  binds : ∀ x, (a.body f.id).declared.contains x = true ↔ f.Binds x
  kinds : ∀ x v, (a.body f.id).declared.get? x = some v → (a.var v).kind = f.bindingKind x
  takes : a.Takes f.id f.params

/-! ### Rules -/

variable (origin : VariableId → NodeId)

/-- An identifier occurrence is resolved. -/
def Identifier.Resolved (env : Environment) (i : Identifier) : Prop :=
  ∃ v, a.reference? i = some v ∧ env.Denotes a i.name v

mutual

/-- All names in an expression are resolved. -/
def Expr.Resolved (env : Environment) : Expr → Prop
  | .literal .. => True
  | .this _ => True
  | .identifier i => i.Resolved a env
  | .array _ elements => elementsResolved env elements
  | .object _ properties => propertiesResolved env properties
  | .function f => f.Resolved env
  | .unary _ _ argument => argument.Resolved env
  | .update _ _ t _ => t.Resolved env
  | .binary _ _ left right => left.Resolved env ∧ right.Resolved env
  | .logical _ _ left right => left.Resolved env ∧ right.Resolved env
  | .assign _ _ t value => t.Resolved env ∧ value.Resolved env
  | .conditional _ test consequent alternate =>
    test.Resolved env ∧ consequent.Resolved env ∧ alternate.Resolved env
  | .call _ callee arguments => callee.Resolved env ∧ exprsResolved env arguments
  | .construct _ callee arguments => callee.Resolved env ∧ exprsResolved env arguments
  | .sequence _ expressions => exprsResolved env expressions
  | .member m => m.Resolved env

/-- All names in several expressions are resolved. -/
def exprsResolved (env : Environment) : List Expr → Prop
  | [] => True
  | e :: rest => e.Resolved env ∧ exprsResolved env rest

/-- All names in the elements of an array are resolved. -/
def elementsResolved (env : Environment) : List (Option Expr) → Prop
  | [] => True
  | none :: rest => elementsResolved env rest
  | some e :: rest => e.Resolved env ∧ elementsResolved env rest

/-- All names in the properties of an object are resolved. -/
def propertiesResolved (env : Environment) : List Property → Prop
  | [] => True
  | .mk _ _ value :: rest => value.Resolved env ∧ propertiesResolved env rest

/-- All names in a property reference are resolved. -/
def Member.Resolved (env : Environment) : Member → Prop
  | .named _ object _ => object.Resolved env
  | .computed _ object property => object.Resolved env ∧ property.Resolved env

/-- All names in what is assigned to are resolved. -/
def Target.Resolved (env : Environment) : Target → Prop
  | .identifier i => i.Resolved a env
  | .member m => m.Resolved env

/-- All names in a function are resolved. -/
def Func.Resolved (env : Environment) : Func → Prop
  | .mk span id name params strict isExpression bodySpan body =>
    a.Opens env (.mk span id name params strict isExpression bodySpan body) ∧
      stmtsResolved (⟨id, []⟩ :: env) body

/-- All names in statements are resolved. -/
def stmtsResolved (env : Environment) : List Stmt → Prop
  | [] => True
  | s :: rest => s.Resolved env ∧ stmtsResolved env rest

/-- All names in a declaration are resolved. -/
def declaratorsResolved (env : Environment) : List Declarator → Prop
  | [] => True
  | .mk _ name none :: rest => name.Resolved a env ∧ declaratorsResolved env rest
  | .mk _ name (some init) :: rest =>
    name.Resolved a env ∧ init.Resolved env ∧ declaratorsResolved env rest

/-- All names in the clauses of a `switch` are resolved. -/
def clausesResolved (env : Environment) : List SwitchClause → Prop
  | [] => True
  | .mk _ none body :: rest => stmtsResolved env body ∧ clausesResolved env rest
  | .mk _ (some test) body :: rest =>
    test.Resolved env ∧ stmtsResolved env body ∧ clausesResolved env rest

/-- All names in a block are resolved. -/
def Block.Resolved (env : Environment) : Block → Prop
  | .mk _ body => stmtsResolved env body

/-- All names in a `catch` clause are resolved, and its parameter has a variable of its own. -/
def Handler.Resolved (env : Environment) : Handler → Prop
  | .mk _ param body => ∃ v, a.reference? param = some v ∧ origin v = param.id ∧
    (ScopeEntry.catch_ param.name v).Valid a (Resolve.current env) ∧
    body.Resolved (Resolve.openScope (.catch_ param.name v) env)

/-- All names in the first part of the head of a `for` loop are resolved. -/
def ForInit.Resolved (env : Environment) : ForInit → Prop
  | .nothing => True
  | .declaration _ ds => declaratorsResolved env ds
  | .expression e => e.Resolved env

/-- All names in an expression that may be left out are resolved. -/
def optionResolved (env : Environment) : Option Expr → Prop
  | none => True
  | some e => e.Resolved env

/-- All names in what the keys of a `for`-`in` loop are assigned to are resolved. -/
def ForInTarget.Resolved (env : Environment) : ForInTarget → Prop
  | .declaration i => i.Resolved a env
  | .target t => t.Resolved env

/-- All names in a statement are resolved. -/
def Stmt.Resolved (env : Environment) : Stmt → Prop
  | .expression _ e => e.Resolved env
  | .block b => b.Resolved env
  | .empty _ => True
  | .debugger _ => True
  | .brk .. => True
  | .cont .. => True
  | .ret _ none => True
  | .ret _ (some e) => e.Resolved env
  | .labeled _ _ body => body.Resolved env
  | .conditional _ test consequent none => test.Resolved env ∧ consequent.Resolved env
  | .conditional _ test consequent (some alternate) =>
    test.Resolved env ∧ consequent.Resolved env ∧ alternate.Resolved env
  | .switch _ discriminant clauses => discriminant.Resolved env ∧ clausesResolved env clauses
  | .throw _ e => e.Resolved env
  | .tryCatch _ b h f =>
    b.Resolved env ∧
      (match h with
        | some h => h.Resolved env
        | none => True) ∧
      (match f with
        | some f => f.Resolved env
        | none => True)
  | .while _ test body => test.Resolved env ∧ body.Resolved env
  | .doWhile _ test body => test.Resolved env ∧ body.Resolved env
  | .for _ init test update body =>
    init.Resolved env ∧ optionResolved env test ∧ optionResolved env update ∧ body.Resolved env
  | .forIn _ left right body => left.Resolved env ∧ right.Resolved env ∧ body.Resolved env
  | .with _ id object body => object.Resolved env ∧ ∃ v, a.withVariable? id = some v ∧
    origin v = id ∧ (ScopeEntry.with_ v).Valid a (Resolve.current env) ∧
    body.Resolved (Resolve.openScope (.with_ v) env)
  | .declaration _ ds => declaratorsResolved env ds
  | .function f =>
    (∀ i, f.identifier? = some i → a.NamesFunction (Resolve.current env) i.id) ∧
      f.Resolved (Resolve.hoistedEnvironment env)

end

end ScriptEngine
