import ScriptEngine.Run.Evaluate

/-!
# Calls

Activations of functions and scripts.  Evaluation asks its host for calls, and the host evaluates
with one level of calls less, so that everything ends within the levels it was given.

## Main definitions

* `FunctionCode.invoke` : the activation of a script's function.
* `callWith` : a call, counted in the depth of calls.
* `callWithin` : calls within a number of levels.
* `TypedCode.run` : the value of code outside of any body.
* `FunctionCode.runProgram` : the activation of a script.
-/

namespace ScriptEngine

/-- The frame of an activation before its entry, with its own record. -/
def Machine.enterFrame (m : Machine) (info : FunctionInfo) (this callee arguments : Value)
    (scope : Option RecordRef) : RunState :=
  let (own, records) := match info.layout.ownFields with
    | some n =>
      let (r, records) := m.records.alloc n scope
      (some r, records)
    | none => (none, m.records)
  let head := own.or scope
  { frame :=
      { strict := info.strict, this, callee, arguments, scope, own
        records := (info.recordHops.map fun hops => head.bind (records.ancestor? · hops)).toArray
        values := Array.replicate info.layout.values (Rep.initial .boxed)
        doubles := Array.replicate info.layout.doubles (Rep.initial .double)
        booleans := Array.replicate info.layout.booleans (Rep.initial .boolean)
        strings := Array.replicate info.layout.strings (Rep.initial .string)
        completion := .undefined }
    machine := { m with records } }

/-- Keeps the arguments object where the body looks for it. -/
def keepArguments (info : FunctionInfo) : Act Unit := do
  let arguments ← Act.onFrame (·.arguments)
  match info.argumentsField, ← Act.onFrame (·.own) with
  | some field, some r =>
    Act.lift fun m => .ok () { m with records := m.records.set r field arguments }
  | _, _ => pure ()
  match info.argumentsSlot with
  | some slot => Act.setSlot .boxed slot arguments
  | none => pure ()

/-- Makes the globals that a script declares, unless they are there. -/
def declareGlobals : List String → Act Unit
  | [] => pure ()
  | name :: rest => do
    let global := Intrinsic.global.ref
    if !(← Act.onHeap (·.hasProperty global name)) then
      Act.lift (Run.putOwn global name .undefined)
    declareGlobals rest

/-- Runs a body from its entry on. -/
def FunctionCode.exec (host : Host) : FunctionCode → Act Completion
  | .mk info entry body => do
    keepArguments info
    declareGlobals info.globals
    let _ ← entry.exec host
    body.exec host

/-- Runs a computation in a frame of its own. -/
def inFrame {α : Type} (enter : Machine → RunState) (x : Act α) : Run (α × Frame) :=
  fun m =>
    match x (enter m) with
    | .ok a s => .ok (a, s.frame) s.machine
    | .error e s => .error e s.machine
    | .exhausted => .exhausted

/-- The `this` of an activation.  Code that is not strict always has an object. -/
def effectiveThis (strict : Bool) (this : Value) : Run Value :=
  if strict then pure this
  else if this.isNullish then pure (.object Intrinsic.global.ref)
  else Run.toObject this

/-- The value of a call that ended. -/
def Completion.callValue : Completion → Value
  | .ret v => v
  | _ => .undefined

/-- The activation of a script's function. -/
def FunctionCode.invoke (host : Host) (code : FunctionCode) (scope : Option RecordRef)
    (callee : Ref) (this : Value) (arguments : List Value) : Run Value := do
  let info := code.info
  let this ← effectiveThis info.strict this
  let arguments ← Run.new (·.newArguments arguments info.paramCount (some callee))
  let (completion, _) ←
    inFrame (·.enterFrame info this (.object callee) arguments scope) (code.exec host)
  return completion.callValue

/-- A call, one level deeper than what surrounds it. -/
def callWith (host : Host) (callee this : Value) (arguments : List Value) : Run Value := do
  let (r, f) ← Run.callable callee "a function"
  Run.nested (match f with
    | .script code scope => code.invoke host scope r this arguments
    | .native f => f.run host.call this arguments)

/-- Calls within a number of levels; loops have as many rounds. -/
def callWithin : Nat → Caller
  | 0 => fun _ _ _ => Exec.exhaust
  | fuel + 1 => fun callee this arguments =>
    callWith ⟨callWithin fuel, fuel⟩ callee this arguments

/-- The host with a number of levels and rounds. -/
def Host.within (fuel : Nat) : Host :=
  ⟨callWithin fuel, fuel⟩

/-- Evaluates code outside of any body: in a frame without slots and records. -/
def TypedCode.run (host : Host) (c : TypedCode) : Run Value := do
  let enter := fun m : Machine => RunState.mk default m
  let (x, _) ← inFrame enter (c.code.eval host)
  return c.rep.box x

/-- Runs a script.  Its value is that of the last expression statement that ran. -/
def FunctionCode.runProgram (host : Host) (code : FunctionCode) : Run Value := do
  let enter := fun m : Machine =>
    m.enterFrame code.info (.object Intrinsic.global.ref) .undefined .undefined none
  let (_, frame) ← inFrame enter (code.exec host)
  return frame.completion

end ScriptEngine
