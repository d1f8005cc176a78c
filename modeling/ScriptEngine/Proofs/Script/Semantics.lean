import ScriptEngine.Run.Evaluate

/-!
# Statements with labels

What statements do, said of the statements themselves.  Jumps carry the label that is written after
them, if any, and every statement that can be left knows the set of labels in front of it.  How
expressions are evaluated is left open.

## Main definitions

* `LabelCompletion` : how a statement ends, with jumps to labels.
* `Evaluator` : the evaluation of expressions, and the writing of names by statements.
* `Stmt.run`, `runStmts` : what statements do.
-/

namespace ScriptEngine

/-- How a statement ends.  A jump leads to a label, or to the innermost statement that takes it. -/
inductive LabelCompletion where
  | normal
  | ret (v : Value)
  | brk (label : Option String)
  | cont (label : Option String)
deriving Repr, Inhabited

namespace LabelCompletion

/-- What a loop with a set of labels does after its body: it goes on, or ends as said. -/
def afterBody (labels : List String) : LabelCompletion → Option LabelCompletion
  | .normal => none
  | .cont none => none
  | .cont (some l) => if l ∈ labels then none else some (.cont (some l))
  | .brk none => some .normal
  | .brk (some l) => some (if l ∈ labels then .normal else .brk (some l))
  | .ret v => some (.ret v)

/-- What is left of a completion outside of a `switch` with a set of labels. -/
def leavingSwitch (labels : List String) : LabelCompletion → LabelCompletion
  | .brk none => .normal
  | .brk (some l) => if l ∈ labels then .normal else .brk (some l)
  | c => c

/-- What is left of a completion outside of a statement with labels that only `break` leads to. -/
def leaving (labels : List String) : LabelCompletion → LabelCompletion
  | .brk (some l) => if l ∈ labels then .normal else .brk (some l)
  | c => c

end LabelCompletion

/-- The evaluation of expressions, and what statements do with names. -/
structure Evaluator where
  value : Expr → Act Value
  /-- Writes the variable or property of a `for`-`in` loop, or the parameter of a `catch` clause. -/
  assign : ForInTarget → Value → Act Unit
  /-- Evaluates the object of a `with` statement and keeps it for the names inside. -/
  enter : NodeId → Expr → Act Unit
  /-- Whether expression statements give the script its value. -/
  isProgram : Bool
  /-- The number of rounds of a loop. -/
  rounds : Nat

namespace Evaluator

/-- Whether the value of an expression counts as true. -/
def test (ev : Evaluator) (e : Expr) : Act Bool := do
  return (← ev.value e).toBoolean

/-- The test of a `for` loop, which holds if it is left out. -/
def optionalTest (ev : Evaluator) : Option Expr → Act Bool
  | some e => ev.test e
  | none => pure true

/-- Evaluates an expression for its effects. -/
def effect (ev : Evaluator) (e : Expr) : Act Unit := do
  let _ ← ev.value e

/-- Evaluates an expression for its effects, if it is there. -/
def optionalEffect (ev : Evaluator) : Option Expr → Act Unit
  | some e => ev.effect e
  | none => pure ()

end Evaluator

/-- Tests, runs a body and updates, as long as the test holds. -/
def loopWhile (test : Act Bool) (update : Act Unit) (body : Act LabelCompletion)
    (labels : List String) (rounds : Nat) : Act LabelCompletion :=
  Exec.iterate (do
    if ← test then
      match (← body).afterBody labels with
      | some ended => return some ended
      | none =>
        update
        return none
    else return some .normal) rounds

/-- Runs a body and tests, as long as the test holds. -/
def repeatWhile (test : Act Bool) (body : Act LabelCompletion) (labels : List String)
    (rounds : Nat) :
    Act LabelCompletion :=
  Exec.iterate (do
    match (← body).afterBody labels with
    | some ended => return some ended
    | none => if ← test then return none else return some .normal) rounds

/-- Runs statements and, if they fail, others for the error. -/
def catchingError (body : Act LabelCompletion) (handler : RuntimeError → Act LabelCompletion) :
    Act LabelCompletion :=
  fun s =>
    match body s with
    | .error e s => handler e s
    | ending => ending

/-- Runs statements and then, however they ended, others.  How the others end counts only if it is
not the normal way. -/
def finallyRunning (body finalizer : Act LabelCompletion) : Act LabelCompletion :=
  fun s =>
    match body s with
    | .ok c s =>
      match finalizer s with
      | .ok .normal s => .ok c s
      | ending => ending
    | .error e s =>
      match finalizer s with
      | .ok .normal s => .error e s
      | ending => ending
    | .exhausted => .exhausted

/-- A loop over the keys that an object has at its start; a key that is gone is skipped. -/
def forEachKey (v : Value) (assign : Value → Act Unit) (body : Act LabelCompletion)
    (labels : List String) : Act LabelCompletion :=
  if v.isNullish then pure .normal
  else do
    match ← Act.lift (Run.toObject v) with
    | .object r =>
      let keys ← Act.onHeap (·.enumerate r)
      let ended ← Exec.firstResult (fun key => do
        if ← Act.onHeap (·.hasProperty r key) then
          assign (.string key)
          return (← body).afterBody labels
        else return none) keys
      return ended.getD .normal
    | _ => return .normal

/-- Whether a clause is the default one. -/
def SwitchClause.isDefault : SwitchClause → Bool
  | .mk _ none _ => true
  | .mk _ (some _) _ => false

section

variable (ev : Evaluator)

/-- The index of the first clause whose expression has the value of the `switch`. -/
def matchingClause (v : Value) (index : Nat) : List SwitchClause → Act (Option Nat)
  | [] => pure none
  | .mk _ none _ :: rest => matchingClause v (index + 1) rest
  | .mk _ (some test) _ :: rest => do
    if v.strictlyEqual (← ev.value test) then return some index
    else matchingClause v (index + 1) rest

/-- Gives the variables of a declaration their values. -/
def runDeclarators : List Declarator → Act Unit
  | [] => pure ()
  | .mk _ _ none :: rest => runDeclarators rest
  | .mk span name (some init) :: rest => do
    ev.effect (.assign span .plain (.identifier name) init)
    runDeclarators rest

/-- The first part of the head of a `for` loop. -/
def ForInit.run : ForInit → Act Unit
  | .nothing => pure ()
  | .declaration _ ds => runDeclarators ev ds
  | .expression e => ev.effect e

mutual

/-- What a statement does that has a set of labels in front of it. -/
def Stmt.run (labels : List String) : Stmt → Act LabelCompletion
  | .expression _ e => do
    let v ← ev.value e
    if ev.isProgram then Act.changeFrame fun f => { f with completion := v }
    return .normal
  | .block b => Block.run b
  | .empty _ | .debugger _ | .function _ => pure .normal
  | .declaration _ ds => do
    runDeclarators ev ds
    return .normal
  | .ret _ none => pure (.ret .undefined)
  | .ret _ (some e) => do return .ret (← ev.value e)
  | .brk _ label => pure (.brk label)
  | .cont _ label => pure (.cont label)
  | .labeled _ label body => do return (← body.run (labels ++ [label])).leaving [label]
  | .conditional _ test consequent none => do
    if ← ev.test test then consequent.run [] else return .normal
  | .conditional _ test consequent (some alternate) => do
    if ← ev.test test then consequent.run [] else alternate.run []
  | .switch _ discriminant clauses => do
    let v ← ev.value discriminant
    let matching ← matchingClause ev v 0 clauses
    match matching.or (clauses.findIdx? SwitchClause.isDefault) with
    | some start => return (← runClauses start clauses).leavingSwitch labels
    | none => return .normal
  | .throw _ e => do
    let v ← ev.value e
    Exec.fail (.thrown v)
  | .tryCatch _ b none none => Block.run b
  | .tryCatch _ b (some h) none => catchingError (Block.run b) (Handler.run h)
  | .tryCatch _ b none (some f) => finallyRunning (Block.run b) (Block.run f)
  | .tryCatch _ b (some h) (some f) =>
    finallyRunning (catchingError (Block.run b) (Handler.run h)) (Block.run f)
  | .while _ test body => loopWhile (ev.test test) (pure ()) (body.run []) labels ev.rounds
  | .doWhile _ test body => repeatWhile (ev.test test) (body.run []) labels ev.rounds
  | .for _ init test update body => do
    init.run ev
    loopWhile (ev.optionalTest test) (ev.optionalEffect update) (body.run []) labels ev.rounds
  | .forIn _ left right body => do
    let v ← ev.value right
    forEachKey v (ev.assign left) (body.run []) labels
  | .with _ id object body => do
    ev.enter id object
    body.run []

/-- What a block does. -/
def Block.run : Block → Act LabelCompletion
  | .mk _ body => runStmts body

/-- What a `catch` clause does with an error. -/
def Handler.run : Handler → RuntimeError → Act LabelCompletion
  | .mk _ param body, e => do
    let v ← Act.lift (Run.errorValue e)
    ev.assign (.declaration param) v
    Block.run body

/-- What statements do, one after the other, until one does not end normally. -/
def runStmts : List Stmt → Act LabelCompletion
  | [] => pure .normal
  | s :: rest => do
    match ← s.run [] with
    | .normal => runStmts rest
    | abrupt => return abrupt

/-- What the clauses of a `switch` do from an index on, until one does not end normally. -/
def runClauses (start : Nat) : List SwitchClause → Act LabelCompletion
  | [] => pure .normal
  | .mk _ _ body :: rest =>
    if start = 0 then do
      match ← runStmts body with
      | .normal => runClauses 0 rest
      | abrupt => return abrupt
    else runClauses (start - 1) rest

end

end

end ScriptEngine
