import ScriptEngine.Analysis.Capture
import ScriptEngine.Compile.Jump
import ScriptEngine.Compile.Scope

/-!
# Compilation of bodies

The code of statements and expressions.  The functions that a body declares are compiled after its
statements and made when the body is entered.

## Main definitions

* `Compile.expr`, `Compile.stmt` : the code of an expression and of a statement.
* `Compile.func` : the code of a function.
* `CompiledProgram` : a script that can be run.
* `Program.compile` : the compilation of a script.
-/

namespace ScriptEngine

/-- Code of a statement that does nothing. -/
def StatementCode.skip : StatementCode := .block []

/-- Code that is run for its effects only. -/
def TypedCode.effect (c : TypedCode) : StatementCode :=
  .effect c.code

/-- Code of expressions one after the other; the last one yields the result. -/
def sequenceCode (first : TypedCode) : List TypedCode → TypedCode
  | [] => first
  | next :: rest =>
    let tail := sequenceCode next rest
    ⟨tail.rep, .sequence first.code tail.code⟩

/-- Code of a literal. -/
def Literal.code : Literal → TypedCode
  | .null => .constant .null
  | .boolean b => .constant (.boolean b)
  | .string s => .constant (.string s)
  | .number x => .constant (.number x)
  | .regularExpression pattern flags => ⟨.boxed, .regularExpression pattern flags⟩

/-- Whether a statement takes the labels in front of it itself. -/
def Stmt.takesLabels : Stmt → Bool
  | .while .. | .doWhile .. | .for .. | .forIn .. | .switch .. | .labeled .. => true
  | _ => false

namespace Compile

/-- What is known about a compiled body apart from its code. -/
def bodyInfo (ctx : BodyContext) (name : String) (paramCount : Nat) (globals : List String)
    (s : BodyState) : FunctionInfo :=
  let a := ctx.analysis
  let body := a.body ctx.id
  { name
    id := ctx.id
    paramCount
    strict := body.strict
    isProgram := ctx.isProgram
    layout := s.layout (body.layout.map fun l => (a.layout l).fields.length)
    recordHops := s.hops
    argumentsField := body.layout.bind fun l => (a.layout l).fieldIndex? argumentsField
    argumentsSlot := body.arguments.bind fun v => (s.slot? v).map (·.index)
    globals }

/-- Code that binds the name of a function expression inside its body. -/
def selfEntry (ctx : BodyContext) : Compile (List StatementCode) := do
  match (ctx.analysis.body ctx.id).selfBinding with
  | some v =>
    let a ← access ctx v
    return [(a.initializer.store ⟨.boxed, .callee⟩).effect]
  | none => return []

/-- Code that makes a declared function. -/
def declaredFunction (ctx : BodyContext) (name : Identifier) (code : FunctionCode) :
    Compile StatementCode := do
  let a ← identifier ctx name
  return (a.store ⟨.boxed, .function code⟩).effect

/-- The code of the update of a place. -/
def stepCode (op : UpdateOp) (before : Bool) : Reference → TypedCode
  | .name ⟨_, [], ⟨.slot .double index, none⟩⟩ => ⟨.double, .stepSlot index op.step before⟩
  | place => ⟨.double, .step place op.step before⟩

/-- The target of a jump, if it has one. -/
def jump (target : Except StaticError TargetId) : Compile TargetId :=
  match target with
  | .ok t => pure t
  | .error e => throw e

mutual

/-- The code of an expression. -/
def expr (ctx : BodyContext) : Expr → Compile TypedCode
  | .literal _ value => pure value.code
  | .identifier i => do return (← identifier ctx i).load false
  | .this _ => pure ⟨.boxed, .this⟩
  | .array _ elements => do return ⟨.boxed, .array (← elementList ctx elements)⟩
  | .object _ properties => do return ⟨.boxed, .object (← propertyList ctx properties)⟩
  | .function f => do return ⟨.boxed, .function (← func ctx.analysis f)⟩
  | .unary _ .delete (.identifier i) => do
    return ⟨.boolean, .delete (.name (← identifier ctx i))⟩
  | .unary _ .delete (.member m) => do return ⟨.boolean, .delete (← member ctx m)⟩
  | .unary _ .typeOf (.identifier i) => do
    return specializeUnary .typeOf ((← identifier ctx i).load true)
  | .unary _ op argument => do return specializeUnary op (← expr ctx argument)
  | .update _ op t before => do return stepCode op before (← target ctx t)
  | .binary _ op left right => do
    let l ← expr ctx left
    let r ← expr ctx right
    return specializeBinary op l r
  | .logical _ op left right => do
    let l ← expr ctx left
    let r ← expr ctx right
    return logicalCode op l r
  | .assign _ .plain (.identifier i) value => do
    let a ← identifier ctx i
    return a.store (← expr ctx value)
  | .assign _ .plain (.member m) value => do
    let place ← member ctx m
    let v ← expr ctx value
    return ⟨.boxed, .store place (v.inRep .boxed)⟩
  | .assign _ (.compound op) (.identifier i) value => do
    let a ← identifier ctx i
    let v ← expr ctx value
    if a.scopes.isEmpty then return a.store (specializeBinary op (a.load false) v)
    else return ⟨.boxed, .combine (.name a) op (v.inRep .boxed)⟩
  | .assign _ (.compound op) (.member m) value => do
    let v ← expr ctx value
    let place ← member ctx m
    return ⟨.boxed, .combine place op (v.inRep .boxed)⟩
  | .conditional _ test consequent alternate => do
    let t ← expr ctx test
    let c ← expr ctx consequent
    let a ← expr ctx alternate
    return conditionalCode (t.inRep .boolean) c a
  | .call _ (.member m) arguments => do
    let place ← member ctx m
    return ⟨.boxed, .callPlace place (← exprList ctx arguments)⟩
  | .call _ (.identifier i) arguments => do
    let a ← identifier ctx i
    return ⟨.boxed, .callPlace (.name a) (← exprList ctx arguments)⟩
  | .call _ callee arguments => do
    let f ← expr ctx callee
    return ⟨.boxed, .call (f.inRep .boxed) (← exprList ctx arguments)⟩
  | .construct _ callee arguments => do
    let f ← expr ctx callee
    return ⟨.boxed, .construct (f.inRep .boxed) (← exprList ctx arguments)⟩
  | .sequence _ expressions => do
    match ← typedList ctx expressions with
    | [] => return .constant .undefined
    | first :: rest => return sequenceCode first rest
  | .member m => do return ⟨.boxed, .load (← member ctx m) false⟩

/-- The code of several expressions. -/
def typedList (ctx : BodyContext) : List Expr → Compile (List TypedCode)
  | [] => pure []
  | e :: rest => do
    let c ← expr ctx e
    let cs ← typedList ctx rest
    return c :: cs

/-- The code of several expressions whose values are wanted. -/
def exprList (ctx : BodyContext) : List Expr → Compile (List (Code .boxed))
  | [] => pure []
  | e :: rest => do
    let c ← expr ctx e
    let cs ← exprList ctx rest
    return c.inRep .boxed :: cs

/-- The code of the elements of an array; one that is left out is `undefined`. -/
def elementList (ctx : BodyContext) : List (Option Expr) → Compile (List (Code .boxed))
  | [] => pure []
  | none :: rest => do
    let cs ← elementList ctx rest
    return .constant .undefined :: cs
  | some e :: rest => do
    let c ← expr ctx e
    let cs ← elementList ctx rest
    return c.inRep .boxed :: cs

/-- The code of the properties of an object. -/
def propertyList (ctx : BodyContext) : List Property → Compile (List PropertyCode)
  | [] => pure []
  | .mk _ key value :: rest => do
    let c ← expr ctx value
    let cs ← propertyList ctx rest
    return .mk key (c.inRep .boxed) :: cs

/-- The code of a property reference. -/
def member (ctx : BodyContext) : Member → Compile Reference
  | .named _ object property => do
    let o ← expr ctx object
    return .member (o.inRep .boxed) (.constant (.string property))
  | .computed _ object property => do
    let o ← expr ctx object
    let p ← expr ctx property
    return .member (o.inRep .boxed) (p.inRep .boxed)

/-- The code of what is assigned to. -/
def target (ctx : BodyContext) : Target → Compile Reference
  | .identifier i => do return .name (← identifier ctx i)
  | .member m => member ctx m

/-- The code of a function. -/
def func (a : Analysis) : Func → Except StaticError FunctionCode
  | .mk _ id name params _ _ _ body => do
    let ctx := BodyContext.ofBody a id false
    let ((statements, entry), s) ← (do
      let statements ← stmtList ctx .none body
      let self ← selfEntry ctx
      let declared ← hoistList ctx body
      return (statements, self ++ declared)).run .initial
    let functionName := (name.map (·.name)).getD ""
    return .mk (bodyInfo ctx functionName params.length [] s) (.block entry) (.block statements)

/-- The code of statements.  Declared functions are made at the entry, and empty statements are left
out. -/
def stmtList (ctx : BodyContext) (jumps : Jumps) : List Stmt → Compile (List StatementCode)
  | [] => pure []
  | .function _ :: rest => stmtList ctx jumps rest
  | .empty _ :: rest => stmtList ctx jumps rest
  | s :: rest => do
    let c ← stmt ctx jumps s
    let cs ← stmtList ctx jumps rest
    return c :: cs

/-- The code of a declaration: the variables with a value are written. -/
def declaratorList (ctx : BodyContext) : List Declarator → Compile (List StatementCode)
  | [] => pure []
  | .mk _ _ none :: rest => declaratorList ctx rest
  | .mk _ name (some init) :: rest => do
    let a ← identifier ctx name
    let v ← expr ctx init
    let cs ← declaratorList ctx rest
    return (a.store v).effect :: cs

/-- The code of the clauses of a `switch` whose discriminant is in a slot. -/
def clauseList (ctx : BodyContext) (jumps : Jumps) (slot : Nat) :
    List SwitchClause → Compile (List ClauseCode)
  | [] => pure []
  | .mk _ none body :: rest => do
    let b ← stmtList ctx jumps body
    let cs ← clauseList ctx jumps slot rest
    return .otherwise (.block b) :: cs
  | .mk _ (some test) body :: rest => do
    let t ← expr ctx test
    let equal := specializeBinary .strictlyEqual ⟨.boxed, .slot .boxed slot⟩ t
    let b ← stmtList ctx jumps body
    let cs ← clauseList ctx jumps slot rest
    return .case (equal.inRep .boolean) (.block b) :: cs

/-- The code of a block. -/
def block (ctx : BodyContext) (jumps : Jumps) : Block → Compile StatementCode
  | .mk _ body => do return .block (← stmtList ctx jumps body)

/-- The code of a `try` body with a `catch` clause. -/
def handler (ctx : BodyContext) (jumps : Jumps) (body : StatementCode) :
    Handler → Compile StatementCode
  | .mk _ param b => do
    let a ← identifier ctx param
    return .tryCatch body a (← block ctx jumps b)

/-- The code of a statement. -/
def stmt (ctx : BodyContext) (jumps : Jumps) : Stmt → Compile StatementCode
  | .expression _ e => do
    let c ← expr ctx e
    return if ctx.isProgram then .complete (c.inRep .boxed) else c.effect
  | .block b => block ctx jumps b
  | .empty _ => pure .skip
  | .debugger _ => pure .skip
  | .function _ => pure .skip
  | .declaration _ ds => do return .block (← declaratorList ctx ds)
  | .ret _ none =>
    if ctx.isProgram then throw .illegalReturn else pure (.ret (.constant .undefined))
  | .ret _ (some e) =>
    if ctx.isProgram then throw .illegalReturn
    else do
      let c ← expr ctx e
      return .ret (c.inRep .boxed)
  | .brk _ label => do return .brk (← jump (jumps.breakTarget label))
  | .cont _ label => do return .cont (← jump (jumps.continueTarget label))
  | .labeled _ label body => do
    match jumps.label label with
    | .error e => throw e
    | .ok labeled =>
      if body.takesLabels then stmt ctx labeled body
      else return .labeled labeled.nextId (← stmt ctx (labeled.enter .labeled) body)
  | .conditional _ test consequent none => do
    let t ← expr ctx test
    return .branch (t.inRep .boolean) (← stmt ctx jumps consequent) .skip
  | .conditional _ test consequent (some alternate) => do
    let t ← expr ctx test
    let c ← stmt ctx jumps consequent
    return .branch (t.inRep .boolean) c (← stmt ctx jumps alternate)
  | .switch _ discriminant clauses => do
    let d ← expr ctx discriminant
    let slot ← newSlot .boxed
    let cs ← clauseList ctx (jumps.enter .switch) slot.index clauses
    return .switch jumps.nextId slot.index (d.inRep .boxed) cs
  | .throw _ e => do
    let c ← expr ctx e
    return .throw (c.inRep .boxed)
  | .tryCatch _ b h f => do
    let body ← block ctx jumps b
    let caught ← match h with
      | some h => handler ctx jumps body h
      | none => pure body
    match f with
    | some f => return .tryFinally caught (← block ctx jumps f)
    | none => return caught
  | .while _ test body => do
    let t ← expr ctx test
    return .loop jumps.nextId (t.inRep .boolean) .skip (← stmt ctx (jumps.enter .loop) body)
  | .doWhile _ test body => do
    let t ← expr ctx test
    return .repeat jumps.nextId (← stmt ctx (jumps.enter .loop) body) (t.inRep .boolean)
  | .for _ init test update body => do
    let first ← match init with
      | .nothing => pure []
      | .declaration _ ds => declaratorList ctx ds
      | .expression e => do
        let c ← expr ctx e
        pure [c.effect]
    let t ← match test with
      | some e => do
        let c ← expr ctx e
        pure (c.inRep .boolean)
      | none => pure (.constant true)
    let u ← match update with
      | some e => do
        let c ← expr ctx e
        pure c.effect
      | none => pure .skip
    let b ← stmt ctx (jumps.enter .loop) body
    return .block (first ++ [.loop jumps.nextId t u b])
  | .forIn _ left right body => do
    let place ← match left with
      | .declaration i => do
        let a ← identifier ctx i
        pure (.name a)
      | .target t => target ctx t
    let o ← expr ctx right
    return .forIn jumps.nextId place (o.inRep .boxed) (← stmt ctx (jumps.enter .loop) body)
  | .with _ id object body => do
    match ctx.analysis.withVariable? id with
    | none => throw (.unresolvedIdentifier s!"%with@{id}")
    | some v =>
      let a ← access ctx v
      let o ← expr ctx object
      let enter := (a.store ⟨.boxed, .unary .object (o.inRep .boxed)⟩).effect
      return .block [enter, ← stmt ctx jumps body]

/-- The code that makes the functions declared in statements. -/
def hoistList (ctx : BodyContext) : List Stmt → Compile (List StatementCode)
  | [] => pure []
  | s :: rest => do
    let cs ← hoist ctx s
    return cs ++ (← hoistList ctx rest)

/-- The code that makes the functions declared in a block. -/
def hoistBlock (ctx : BodyContext) : Block → Compile (List StatementCode)
  | .mk _ body => hoistList ctx body

/-- The code that makes the functions declared in the clauses of a `switch`. -/
def hoistClauses (ctx : BodyContext) : List SwitchClause → Compile (List StatementCode)
  | [] => pure []
  | .mk _ _ body :: rest => do
    let cs ← hoistList ctx body
    return cs ++ (← hoistClauses ctx rest)

/-- The code that makes the functions declared in a statement. -/
def hoist (ctx : BodyContext) : Stmt → Compile (List StatementCode)
  | .function f => do
    match f.identifier? with
    | some name =>
      let code ← func ctx.analysis f
      return [← declaredFunction ctx name code]
    | none => return []
  | .block b => hoistBlock ctx b
  | .labeled _ _ body => hoist ctx body
  | .while _ _ body => hoist ctx body
  | .doWhile _ _ body => hoist ctx body
  | .with _ _ _ body => hoist ctx body
  | .conditional _ _ c none => hoist ctx c
  | .conditional _ _ c (some a) => do
    let cs ← hoist ctx c
    return cs ++ (← hoist ctx a)
  | .for _ _ _ _ body => hoist ctx body
  | .forIn _ _ _ body => hoist ctx body
  | .switch _ _ clauses => hoistClauses ctx clauses
  | .tryCatch _ b h f => do
    let first ← hoistBlock ctx b
    let handled ← match h with
      | some (.mk _ _ hb) => hoistBlock ctx hb
      | none => pure []
    let finished ← match f with
      | some fb => hoistBlock ctx fb
      | none => pure []
    return first ++ handled ++ finished
  | .expression .. | .empty _ | .debugger _ | .ret .. | .brk .. | .cont .. | .throw ..
  | .declaration .. => pure []

end

/-- The code of a script. -/
def program (a : Analysis) (p : Program) : Except StaticError FunctionCode := do
  let ctx := BodyContext.ofBody a 0 true
  let ((statements, entry), s) ← (do
    let statements ← stmtList ctx .none p.body
    let entry ← hoistList ctx p.body
    return (statements, entry)).run .initial
  let globals := declaredNames p.body ++ (bodyFunctions p.body).map (·.name)
  return .mk (bodyInfo ctx "" 0 globals s) (.block entry) (.block statements)

end Compile

/-- A script that can be run, with what is known about it. -/
structure CompiledProgram where
  code : FunctionCode
  analysis : Analysis

/-- Compiles a script. -/
def Program.compile (p : Program) (options : CompileOptions) :
    Except StaticError CompiledProgram := do
  let analysis ← analyze p options
  let code ← Compile.program analysis p
  return ⟨code, analysis⟩

end ScriptEngine
