import ScriptEngine.Run.Builtin
import ScriptEngine.Run.Frame

/-!
# Evaluation

What code does.  Evaluation follows the structure of the code; calls go to a host, which also says
how often a loop may go round.

## Main definitions

* `Host` : how calls are made and how many rounds loops have.
* `Run.construct` : the operator `new`.
* `Completion` : how a statement ends.
* `Code.eval`, `Reference.resolve`, `StatementCode.exec` : evaluation.
-/

namespace ScriptEngine

/-- What evaluation needs from outside. -/
structure Host where
  call : Caller
  /-- The number of rounds of a loop. -/
  rounds : Nat

/-- How a statement ends. -/
inductive Completion where
  | normal
  | ret (v : Value)
  | brk (target : TargetId)
  | cont (target : TargetId)
deriving Repr, Inhabited

/-! ### Functions -/

/-- The function of a value, which is needed as what the text says. -/
def Run.callable (v : Value) (what : String) : Run (Ref × Callable) := do
  let found ← onHeap fun h =>
    match v with
    | .object r =>
      match (h.object r).cls with
      | .function f => some (r, f)
      | _ => none
    | _ => none
  match found with
  | some f => return f
  | none =>
    let shown ← display v
    raise .typeError s!"{shown} is not {what}"

/-- The operator `new`.  A script's function runs on a new object that inherits from its
`prototype`, and may yield another object in its place; a native function makes its object
itself. -/
def Run.construct (call : Caller) (callee : Value) (arguments : List Value) : Run Value := do
  let (r, f) ← callable callee "a constructor"
  match f with
  | .native _ => call callee .undefined arguments
  | .script .. =>
    changeHeap (·.ensurePrototype r)
    let prototype ← onHeap fun h =>
      match h.get r "prototype" with
      | .object p => p
      | _ => Intrinsic.objectPrototype.ref
    let this ← new (·.alloc (.plain .ordinary (some prototype)))
    let v ← call callee this arguments
    return if v.isObject then v else this

/-- The value of a `catch` clause's parameter for an error. -/
def Run.errorValue (e : RuntimeError) : Run Value :=
  match e with
  | .thrown v => pure v
  | .raised kind message => new (·.newError (some kind) message)

/-! ### Parts of expressions -/

/-- Whether a result counts as true. -/
def Rep.isTrue (ρ : Rep) (x : ρ.Carrier) : Bool :=
  (ρ.box x).toBoolean

/-- Whether the right operand of a logical operator is evaluated after the left one. -/
def LogicalOp.goesOn (op : LogicalOp) (left : Bool) : Bool :=
  match op with
  | .and => left
  | .or => !left

/-- The place of a property.  The object must have properties before the key becomes a text. -/
def memberPlace (call : Caller) (base key : Value) : Run Place :=
  if base.isNullish then do
    let shown ← Run.display key
    Run.raise .typeError s!"Cannot read property '{shown}' of {base.primitiveToText}"
  else do
    let key ← Run.toText call key
    return .property base key

/-- Calls the function at a place, which was read before the arguments. -/
def callAtPlace (call : Caller) (place : Place) (f : Value) (arguments : List Value) :
    Run Value := do
  if ← Run.onHeap (·.isCallable f) then call f place.receiver arguments
  else Run.raise .typeError s!"{place.name} is not a function"

/-- Makes a function of a script, which takes the innermost record along. -/
def makeFunction (code : FunctionCode) : Act Value := do
  let scope ← Act.onFrame (·.head)
  Act.lift (Run.new (·.newFunction code scope))

/-! ### Parts of statements -/

/-- What a loop does after its body: it goes on, or ends as said. -/
def Completion.afterBody (target : TargetId) : Completion → Option Completion
  | .normal => none
  | .cont t => if t == target then none else some (.cont t)
  | .brk t => some (if t == target then .normal else .brk t)
  | .ret v => some (.ret v)

/-- What is left of a completion outside of a statement that can be left. -/
def Completion.leaving (target : TargetId) : Completion → Completion
  | .brk t => if t == target then .normal else .brk t
  | c => c

/-- Runs one statement and, if it fails, another one for its error. -/
def catching (body : Act Completion) (handler : RuntimeError → Act Completion) : Act Completion :=
  fun s =>
    match body s with
    | .error e s => handler e s
    | ending => ending

/-- Runs a statement and then, however it ended, another one.  How the second one ends counts only
if it is not the normal way. -/
def finalizing (body finalizer : Act Completion) : Act Completion :=
  fun s =>
    match body s with
    | .ok c s =>
      match finalizer s with
      | .ok .normal s => .ok c s
      | ending => ending
    | .error e s =>
      match finalizer s with
      | .ok .normal s => .error e s
      | ending => ending
    | .exhausted => .exhausted

/-- The first clause of a `switch` to run, given the index of the first one whose test holds. -/
def switchStart (clauses : List ClauseCode) (matching : Option Nat) : Option Nat :=
  matching.or (clauses.findIdx? fun
    | .otherwise _ => true
    | .case .. => false)

/-- One round of a loop over keys: a key that is gone is skipped. -/
def visitKey (r : Ref) (key : String) (assign : Value → Act Unit) (body : Act Completion)
    (target : TargetId) : Act (Option Completion) := do
  if ← Act.onHeap (·.hasProperty r key) then
    assign (.string key)
    return (← body).afterBody target
  else return none

/-- A loop over the keys that an object has at its start. -/
def forKeys (v : Value) (assign : Value → Act Unit) (body : Act Completion) (target : TargetId) :
    Act Completion :=
  if v.isNullish then pure .normal
  else do
    match ← Act.lift (Run.toObject v) with
    | .object r =>
      let keys ← Act.onHeap (·.enumerate r)
      let ended ← Exec.firstResult (fun key => visitKey r key assign body target) keys
      return ended.getD .normal
    | _ => return .normal

/-! ### Code -/

section

variable (host : Host)

mutual

/-- Evaluates code. -/
def Code.eval {ρ : Rep} : Code ρ → Act ρ.Carrier
  | .constant x => pure x
  | .regularExpression pattern flags =>
    Act.lift (Run.new (·.newRegularExpression pattern flags))
  | .this => Act.onFrame (·.this)
  | .callee => Act.onFrame (·.callee)
  | .array elements => do
    let values ← evalList elements
    Act.lift (Run.new (·.newArray values.toArray))
  | .object properties => do
    match ← Act.lift (Run.new (·.newObject)) with
    | .object r =>
      putProperties r properties
      return .object r
    | v => return v
  | .function f => makeFunction f
  | .slot ρ index => Act.onFrame (·.slot ρ index)
  | .storeSlot ρ index value => do
    let x ← value.eval
    Act.setSlot ρ index x
    return x
  | .stepSlot index step before => do
    let old : Float ← Act.onFrame (·.slot .double index)
    let new : Float := old + step
    Act.setSlot .double index new
    return if before then new else old
  | .load place lenient => do
    let place ← place.resolve
    place.read lenient
  | .store place value => do
    let place ← place.resolve
    let v ← value.eval
    place.write v
    return v
  | .combine place op value => do
    let place ← place.resolve
    let old ← place.read false
    let v ← value.eval
    let new ← Act.lift (Run.binary host.call op old v)
    place.write new
    return new
  | .step place step before => do
    let place ← place.resolve
    let old ← Act.lift (Run.toNumber host.call (← place.read false))
    let new := old + step
    place.write (.number new)
    return if before then new else old
  | .delete place => do
    let place ← place.resolve
    place.delete
  | .unary form operand => do
    let x ← operand.eval
    Act.lift (form.apply host.call x)
  | .binary form left right => do
    let x ← left.eval
    let y ← right.eval
    Act.lift (form.apply host.call x y)
  | .logical ρ op left right => do
    let x ← left.eval
    if op.goesOn (ρ.isTrue x) then right.eval else return x
  | .conditional test consequent alternate => do
    if ← test.eval then consequent.eval else alternate.eval
  | .sequence first rest => do
    let _ ← first.eval
    rest.eval
  | .callPlace function arguments => do
    let place ← function.resolve
    let f ← place.read false
    let values ← evalList arguments
    Act.lift (callAtPlace host.call place f values)
  | .call function arguments => do
    let f ← function.eval
    let values ← evalList arguments
    Act.lift (host.call f .undefined values)
  | .construct function arguments => do
    let f ← function.eval
    let values ← evalList arguments
    Act.lift (Run.construct host.call f values)

/-- Evaluates several pieces of code from left to right. -/
def evalList : List (Code .boxed) → Act (List Value)
  | [] => pure []
  | c :: rest => do
    let v ← c.eval
    let vs ← evalList rest
    return v :: vs

/-- Gives an object the properties of an object literal. -/
def putProperties (r : Ref) : List PropertyCode → Act Unit
  | [] => pure ()
  | .mk key value :: rest => do
    let v ← value.eval
    Act.lift (Run.putOwn r key v)
    putProperties r rest

/-- Finds the place of a reference. -/
def Reference.resolve : Reference → Act Place
  | .name access => access.resolve
  | .member object key => do
    let base ← object.eval
    let key ← key.eval
    Act.lift (memberPlace host.call base key)

end

mutual

/-- Runs a statement. -/
def StatementCode.exec : StatementCode → Act Completion
  | .block statements => execList statements
  | .effect code => do
    let _ ← code.eval host
    return .normal
  | .complete code => do
    let v ← code.eval host
    Act.changeFrame fun f => { f with completion := v }
    return .normal
  | .ret code => do return .ret (← code.eval host)
  | .brk target => pure (.brk target)
  | .cont target => pure (.cont target)
  | .labeled target body => do return (← body.exec).leaving target
  | .branch test consequent alternate => do
    if ← test.eval host then consequent.exec else alternate.exec
  | .switch target slot discriminant clauses => do
    let v ← discriminant.eval host
    Act.setSlot .boxed slot v
    let matching ← findClause 0 clauses
    match switchStart clauses matching with
    | some start => return (← execClauses start clauses).leaving target
    | none => return .normal
  | .throw code => do
    let v ← code.eval host
    Exec.fail (.thrown v)
  | .tryCatch body param handler =>
    catching body.exec fun e => do
      let v ← Act.lift (Run.errorValue e)
      let place ← param.resolve
      place.write v
      handler.exec
  | .tryFinally body finalizer => finalizing body.exec finalizer.exec
  | .loop target test update body =>
    Exec.iterate (do
      if ← test.eval host then
        match (← body.exec).afterBody target with
        | some ended => return some ended
        | none =>
          let _ ← update.exec
          return none
      else return some .normal) host.rounds
  | .repeat target body test =>
    Exec.iterate (do
      match (← body.exec).afterBody target with
      | some ended => return some ended
      | none => if ← test.eval host then return none else return some .normal) host.rounds
  | .forIn target place object body => do
    let v ← object.eval host
    forKeys v (fun key => do (← place.resolve host).write key) body.exec target

/-- Runs statements in order, until one does not end normally. -/
def execList : List StatementCode → Act Completion
  | [] => pure .normal
  | s :: rest => do
    match ← s.exec with
    | .normal => execList rest
    | abrupt => return abrupt

/-- The index of the first clause whose test holds. -/
def findClause (index : Nat) : List ClauseCode → Act (Option Nat)
  | [] => pure none
  | .case test _ :: rest => do
    if ← test.eval host then return some index else findClause (index + 1) rest
  | .otherwise _ :: rest => findClause (index + 1) rest

/-- Runs the clauses of a `switch` from an index on, until one does not end normally. -/
def execClauses (start : Nat) : List ClauseCode → Act Completion
  | [] => pure .normal
  | .case _ body :: rest => do
    if start == 0 then
      match ← body.exec with
      | .normal => execClauses 0 rest
      | abrupt => return abrupt
    else execClauses (start - 1) rest
  | .otherwise body :: rest => do
    if start == 0 then
      match ← body.exec with
      | .normal => execClauses 0 rest
      | abrupt => return abrupt
    else execClauses (start - 1) rest

end

end

end ScriptEngine
