import ScriptEngine.Run.Call

/-!
# Traces

Evaluation that also lists what happens to variables and functions, in the order in which it
happens.  The list is there however evaluation ends, also if it takes too many steps.  A value that
is written into a slot is noted as it was before it took the representation of the slot.  What a
call does in frames of its own is not part of the trace, but the computations that may make calls
are.

## Main definitions

* `Event` : an access to the storage of a variable, a new function, or a computation that may make
  calls.
* `Traced` : computations of an activation that list events.
* `Code.traced`, `StatementCode.traced`, `FunctionCode.traced` : evaluation with events.
-/

namespace ScriptEngine

/-- What happens in an activation, with the state before it. -/
inductive Event where
  | read (storage : Storage) (state : RunState)
  | write (storage : Storage) (v : Value) (state : RunState)
  /-- A function is made. -/
  | function (code : FunctionCode) (state : RunState)
  /-- A computation on the machine begins that may make calls. -/
  | run {α : Type} (x : Caller → Run α) (state : RunState)

/-- The state before an event. -/
def Event.state : Event → RunState
  | .read _ s => s
  | .write _ _ s => s
  | .function _ s => s
  | .run _ s => s

/-- Computations of an activation that list events. -/
def Traced (α : Type) : Type 1 :=
  RunState → List Event × Ending RunState RuntimeError α

namespace Traced

variable {α β : Type}

/-- A computation without events. -/
def silent (x : Act α) : Traced α :=
  fun s => ([], x s)

/-- Notes an event. -/
def log (e : RunState → Event) : Traced Unit :=
  fun s => ([e s], .ok () s)

/-- Goes on with the result of a computation. -/
def andThen (x : Traced α) (f : α → Traced β) : Traced β :=
  fun s =>
    match (x s).2 with
    | .ok a s' => ((x s).1 ++ (f a s').1, (f a s').2)
    | .error e s' => ((x s).1, .error e s')
    | .exhausted => ((x s).1, .exhausted)

instance : Monad Traced where
  pure a := silent (pure a)
  bind := andThen

/-- Repeats a step until it yields a result, at most as often as said. -/
def iterate (step : Traced (Option α)) : Nat → Traced α
  | 0 => silent Exec.exhaust
  | n + 1 => do
    match ← step with
    | none => iterate step n
    | some a => return a

/-- Takes a step for each item of a list, until one yields a result. -/
def firstResult (step : β → Traced (Option α)) : List β → Traced (Option α)
  | [] => pure none
  | b :: rest => do
    match ← step b with
    | none => firstResult step rest
    | some a => return some a

/-- Runs one statement and, if it fails, another one for its error. -/
def catching (body : Traced Completion) (handler : RuntimeError → Traced Completion) :
    Traced Completion :=
  fun s =>
    match (body s).2 with
    | .error e s' => ((body s).1 ++ (handler e s').1, (handler e s').2)
    | ending => ((body s).1, ending)

/-- Runs a statement and then, however it ended, another one. -/
def finalizing (body finalizer : Traced Completion) : Traced Completion :=
  fun s =>
    match (body s).2 with
    | .ok c s' =>
      ((body s).1 ++ (finalizer s').1,
        match (finalizer s').2 with
        | .ok .normal s' => .ok c s'
        | ending => ending)
    | .error e s' =>
      ((body s).1 ++ (finalizer s').1,
        match (finalizer s').2 with
        | .ok .normal s' => .error e s'
        | ending => ending)
    | .exhausted => ((body s).1, .exhausted)

end Traced

/-! ### Variables and places -/

/-- Reads a variable. -/
def Storage.tracedRead (lenient : Bool) (storage : Storage) : Traced Value := do
  Traced.log (.read storage)
  Traced.silent (storage.read lenient)

/-- Writes a variable. -/
def Storage.tracedWrite (v : Value) (storage : Storage) : Traced Unit := do
  Traced.log (.write storage v)
  Traced.silent (storage.write v)

/-- Writes a variable, unless it may not be assigned. -/
def Binding.tracedWrite (b : Binding) (v : Value) : Traced Unit :=
  match b.constant with
  | none => b.storage.tracedWrite v
  | some _ => Traced.silent (b.write v)

/-- Reads a slot as it is. -/
def tracedSlot (ρ : Rep) (index : Nat) : Traced ρ.Carrier := do
  Traced.log (.read (.slot ρ index))
  Traced.silent (Act.onFrame (·.slot ρ index))

/-- Writes a slot with what a value became. -/
def tracedSetSlot (ρ : Rep) (index : Nat) (v : Value) (x : ρ.Carrier) : Traced Unit := do
  Traced.log (.write (.slot ρ index) v)
  Traced.silent (Act.setSlot ρ index x)

/-- Makes a function of a script. -/
def tracedFunction (code : FunctionCode) : Traced Value := do
  Traced.log (.function code)
  Traced.silent (makeFunction code)

/-- A computation on the machine that may make calls. -/
def tracedRun {α : Type} (host : Host) (x : Caller → Run α) : Traced α := do
  Traced.log (.run x)
  Traced.silent (Act.lift (x host.call))

namespace Access

/-- The object of a scope if it has a name. -/
def tracedProbe (name : String) (scope : Binding) : Traced (Option Value) := do
  match ← scope.storage.tracedRead false with
  | .object r =>
    if ← Traced.silent (Act.onHeap (·.hasProperty r name)) then return some (.object r)
    else return none
  | _ => return none

/-- The place of a name. -/
def traced (a : Access) : Traced Place := do
  match ← Traced.firstResult (tracedProbe a.name) a.scopes with
  | some base => return .property base a.name
  | none => return .binding a.name a.binding

end Access

namespace Place

/-- The value at a place. -/
def tracedRead (lenient : Bool) : Place → Traced Value
  | .binding _ b => b.storage.tracedRead lenient
  | .property base key => Traced.silent ((Place.property base key).read lenient)

/-- Writes a place. -/
def tracedWrite (v : Value) : Place → Traced Unit
  | .binding _ b => b.tracedWrite v
  | .property base key => Traced.silent ((Place.property base key).write v)

end Place

/-! ### Code -/

/-- One round of a loop over keys. -/
def tracedVisit (r : Ref) (key : String) (assign : Value → Traced Unit) (body : Traced Completion)
    (target : TargetId) : Traced (Option Completion) := do
  if ← Traced.silent (Act.onHeap (·.hasProperty r key)) then
    assign (.string key)
    return (← body).afterBody target
  else return none

/-- A loop over the keys that an object has at its start. -/
def tracedKeys (v : Value) (assign : Value → Traced Unit) (body : Traced Completion)
    (target : TargetId) : Traced Completion :=
  if v.isNullish then pure .normal
  else do
    match ← Traced.silent (Act.lift (Run.toObject v)) with
    | .object r =>
      let keys ← Traced.silent (Act.onHeap (·.enumerate r))
      let ended ← Traced.firstResult (fun key => tracedVisit r key assign body target) keys
      return ended.getD .normal
    | _ => return .normal

section

variable (host : Host)

mutual

/-- Evaluates code. -/
def Code.traced {ρ : Rep} : Code ρ → Traced ρ.Carrier
  | .constant x => pure x
  | .regularExpression pattern flags =>
    Traced.silent (Act.lift (Run.new (·.newRegularExpression pattern flags)))
  | .this => Traced.silent (Act.onFrame (·.this))
  | .callee => Traced.silent (Act.onFrame (·.callee))
  | .array elements => do
    let values ← tracedList elements
    Traced.silent (Act.lift (Run.new (·.newArray values.toArray)))
  | .object properties => do
    match ← Traced.silent (Act.lift (Run.new (·.newObject))) with
    | .object r =>
      tracedProperties r properties
      return .object r
    | v => return v
  | .function f => tracedFunction f
  | .slot ρ index => tracedSlot ρ index
  | .storeSlot ρ index (.unary (.convert σ _) operand) => do
    let x ← operand.traced
    let y ← tracedRun host (Run.convert · ρ (σ.box x))
    tracedSetSlot ρ index (σ.box x) y
    return y
  | .storeSlot ρ index value => do
    let x ← value.traced
    tracedSetSlot ρ index (ρ.box x) x
    return x
  | .stepSlot index step before => do
    let old : Float ← tracedSlot .double index
    let new : Float := old + step
    tracedSetSlot .double index (.number new) new
    return if before then new else old
  | .load place lenient => do
    let place ← place.traced
    place.tracedRead lenient
  | .store place value => do
    let place ← place.traced
    let v ← value.traced
    place.tracedWrite v
    return v
  | .combine place op value => do
    let place ← place.traced
    let old ← place.tracedRead false
    let v ← value.traced
    let new ← tracedRun host (Run.binary · op old v)
    place.tracedWrite new
    return new
  | .step place step before => do
    let place ← place.traced
    let old ← place.tracedRead false
    let old ← tracedRun host (Run.toNumber · old)
    let new := old + step
    place.tracedWrite (.number new)
    return if before then new else old
  | .delete place => do
    let place ← place.traced
    Traced.silent place.delete
  | .unary form operand => do
    let x ← operand.traced
    tracedRun host (form.apply · x)
  | .binary form left right => do
    let x ← left.traced
    let y ← right.traced
    tracedRun host (form.apply · x y)
  | .logical ρ op left right => do
    let x ← left.traced
    if op.goesOn (ρ.isTrue x) then right.traced else return x
  | .conditional test consequent alternate => do
    if ← test.traced then consequent.traced else alternate.traced
  | .sequence first rest => do
    let _ ← first.traced
    rest.traced
  | .callPlace function arguments => do
    let place ← function.traced
    let f ← place.tracedRead false
    let values ← tracedList arguments
    tracedRun host (callAtPlace · place f values)
  | .call function arguments => do
    let f ← function.traced
    let values ← tracedList arguments
    tracedRun host fun call => call f .undefined values
  | .construct function arguments => do
    let f ← function.traced
    let values ← tracedList arguments
    tracedRun host (Run.construct · f values)

/-- Evaluates several pieces of code from left to right. -/
def tracedList : List (Code .boxed) → Traced (List Value)
  | [] => pure []
  | c :: rest => do
    let v ← c.traced
    let vs ← tracedList rest
    return v :: vs

/-- Gives an object the properties of an object literal. -/
def tracedProperties (r : Ref) : List PropertyCode → Traced Unit
  | [] => pure ()
  | .mk key value :: rest => do
    let v ← value.traced
    Traced.silent (Act.lift (Run.putOwn r key v))
    tracedProperties r rest

/-- Finds the place of a reference. -/
def Reference.traced : Reference → Traced Place
  | .name access => access.traced
  | .member object key => do
    let base ← object.traced
    let key ← key.traced
    tracedRun host (memberPlace · base key)

end

mutual

/-- Runs a statement. -/
def StatementCode.traced : StatementCode → Traced Completion
  | .block statements => tracedStatements statements
  | .effect code => do
    let _ ← code.traced host
    return .normal
  | .complete code => do
    let v ← code.traced host
    Traced.silent (Act.changeFrame fun f => { f with completion := v })
    return .normal
  | .ret code => do return .ret (← code.traced host)
  | .brk target => pure (.brk target)
  | .cont target => pure (.cont target)
  | .labeled target body => do return (← body.traced).leaving target
  | .branch test consequent alternate => do
    if ← test.traced host then consequent.traced else alternate.traced
  | .switch target slot discriminant clauses => do
    let v ← discriminant.traced host
    tracedSetSlot .boxed slot v v
    let matching ← tracedFind 0 clauses
    match switchStart clauses matching with
    | some start => return (← tracedClauses start clauses).leaving target
    | none => return .normal
  | .throw code => do
    let v ← code.traced host
    Traced.silent (Exec.fail (.thrown v))
  | .tryCatch body param handler =>
    Traced.catching body.traced fun e => do
      let v ← Traced.silent (Act.lift (Run.errorValue e))
      let place ← param.traced
      place.tracedWrite v
      handler.traced
  | .tryFinally body finalizer => Traced.finalizing body.traced finalizer.traced
  | .loop target test update body =>
    Traced.iterate (do
      if ← test.traced host then
        match (← body.traced).afterBody target with
        | some ended => return some ended
        | none =>
          let _ ← update.traced
          return none
      else return some .normal) host.rounds
  | .repeat target body test =>
    Traced.iterate (do
      match (← body.traced).afterBody target with
      | some ended => return some ended
      | none => if ← test.traced host then return none else return some .normal) host.rounds
  | .forIn target place object body => do
    let v ← object.traced host
    tracedKeys v (fun key => do (← place.traced host).tracedWrite key) body.traced target

/-- Runs statements in order, until one does not end normally. -/
def tracedStatements : List StatementCode → Traced Completion
  | [] => pure .normal
  | s :: rest => do
    match ← s.traced with
    | .normal => tracedStatements rest
    | abrupt => return abrupt

/-- The index of the first clause whose test holds. -/
def tracedFind (index : Nat) : List ClauseCode → Traced (Option Nat)
  | [] => pure none
  | .case test _ :: rest => do
    if ← test.traced host then return some index else tracedFind (index + 1) rest
  | .otherwise _ :: rest => tracedFind (index + 1) rest

/-- Runs the clauses of a `switch` from an index on, until one does not end normally. -/
def tracedClauses (start : Nat) : List ClauseCode → Traced Completion
  | [] => pure .normal
  | .case _ body :: rest => do
    if start == 0 then
      match ← body.traced with
      | .normal => tracedClauses 0 rest
      | abrupt => return abrupt
    else tracedClauses (start - 1) rest
  | .otherwise body :: rest => do
    if start == 0 then
      match ← body.traced with
      | .normal => tracedClauses 0 rest
      | abrupt => return abrupt
    else tracedClauses (start - 1) rest

end

/-- Stores the arguments object in its slot, which is how `keepArguments` ends. -/
def FunctionInfo.slotArguments (info : FunctionInfo) (arguments : Value) : Act Unit :=
  match info.argumentsSlot with
  | some slot => Act.setSlot .boxed slot arguments
  | none => pure ()

/-- Runs a body from its entry on. -/
def FunctionCode.traced : FunctionCode → Traced Completion
  | .mk info entry body => do
    Traced.silent (keepArguments info)
    Traced.silent (declareGlobals info.globals)
    let _ ← entry.traced host
    body.traced host

end

end ScriptEngine
