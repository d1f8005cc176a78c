import ScriptEngine.Engine
import ScriptEngine.Proofs.Code.Trace
import ScriptEngine.Proofs.Run.Calling

/-!
# Moments of runs

The machines that a run passes through: where it begins, at every access to the storage of a
variable, where functions are made, where computations begin that may make calls, and then in all
calls that these make, at any depth.  The machine of a run that takes too many steps passes through
them as well.

## Main definitions

* `Work` : a computation, a call or a body that runs.
* `Work.after?` : the machine that it leaves behind.
* `Work.Passes` : the machines that it passes through.
* `Engine.Task` : what is asked of an engine.

## Main statements

* `FunctionCode.invoke_eq` : an activation enters its frame and then runs its body.
-/

namespace ScriptEngine

/-! ### Activations -/

/-- Enters the frame of an activation of a script's function, with its `this` and its arguments
object. -/
def FunctionCode.enter (code : FunctionCode) (scope : Option RecordRef) (callee : Ref)
    (this : Value) (arguments : List Value) : Run RunState := do
  let this ← effectiveThis code.info.strict this
  let arguments ← Run.new (·.newArguments arguments code.info.paramCount (some callee))
  Exec.ask (·.enterFrame code.info this (.object callee) arguments scope)

/-- The state in which a script begins. -/
def FunctionCode.begin (code : FunctionCode) (m : Machine) : RunState :=
  m.enterFrame code.info (.object Intrinsic.global.ref) .undefined .undefined none

/-- Runs a body on a frame that was entered, whatever the machine was before. -/
def FunctionCode.runFrom (host : Host) (code : FunctionCode) (s : RunState) : Run Value :=
  fun _ =>
    match code.exec host s with
    | .ok c s => .ok c.callValue s.machine
    | .error e s => .error e s.machine
    | .exhausted => .exhausted

/-- An activation enters its frame and then runs its body. -/
theorem FunctionCode.invoke_eq (host : Host) (code : FunctionCode) (scope : Option RecordRef)
    (callee : Ref) (this : Value) (arguments : List Value) :
    code.invoke host scope callee this arguments =
      code.enter scope callee this arguments >>= code.runFrom host := by
  unfold invoke enter
  simp only [bind_assoc]
  refine bind_congr fun this => bind_congr fun arguments => ?_
  funext m
  change Exec.andThen (inFrame _ (code.exec host)) _ m = code.runFrom host _ m
  unfold Exec.andThen inFrame runFrom
  cases code.exec host (m.enterFrame code.info this (.object callee) arguments scope) <;> rfl

/-! ### Work -/

/-- What runs on a machine. -/
inductive Work where
  /-- A computation that may make calls. -/
  | computation {α : Type} (x : Caller → Run α) (m : Machine)
  | call (c : Call)
  /-- The body of a function or of a script, on a frame that was entered. -/
  | body (code : FunctionCode) (s : RunState)

namespace Work

/-- The machine that work begins on. -/
def machine : Work → Machine
  | .computation _ m => m
  | .call c => c.machine
  | .body _ s => s.machine

/-- The machine that work with a number of levels of calls leaves behind, unless it takes too many
steps. -/
def after? (fuel : Nat) : Work → Option Machine
  | .computation x m => (x (callWithin fuel) m).state?
  | .call c => (c.ending (callWithin fuel)).state?
  | .body code s => (code.exec (.within fuel) s).state?.map (·.machine)

/-- Work with a number of levels of calls passes through a machine. -/
inductive Passes : Nat → Work → Machine → Prop
  | begins {fuel : Nat} {w : Work} : Passes fuel w w.machine
  | ends {fuel : Nat} {w : Work} {n : Machine} (h : w.after? fuel = some n) : Passes fuel w n
  /-- A computation passes through what a call passes through that it makes. -/
  | made {fuel : Nat} {α : Type} {x : Caller → Run α} {m n : Machine} {c : Call}
      (h : Run.Makes x (callWithin fuel) m c) (hn : Passes fuel (.call c) n) :
      Passes fuel (.computation x m) n
  /-- A native function runs one call deeper. -/
  | native {fuel : Nat} {c : Call} {n : Machine} {r : Ref} {f : Native}
      (h : c.callee = .object r) (hf : (c.machine.heap.object r).cls = .function (.native f))
      (hdepth : c.machine.depth < c.machine.limit)
      (hn : Passes fuel (.computation (f.run · c.this c.arguments)
        { c.machine with depth := c.machine.depth + 1 }) n) :
      Passes (fuel + 1) (.call c) n
  /-- A function of a script enters its frame one call deeper. -/
  | script {fuel : Nat} {c : Call} {m n : Machine} {r : Ref} {code : FunctionCode}
      {scope : Option RecordRef} {s : RunState} (h : c.callee = .object r)
      (hf : (c.machine.heap.object r).cls = .function (.script code scope))
      (hdepth : c.machine.depth < c.machine.limit)
      (hs : code.enter scope r c.this c.arguments
        { c.machine with depth := c.machine.depth + 1 } = .ok s m)
      (hn : Passes fuel (.body code s) n) : Passes (fuel + 1) (.call c) n
  | event {fuel : Nat} {code : FunctionCode} {s : RunState} {e : Event}
      (h : e ∈ (code.traced (.within fuel) s).1) : Passes fuel (.body code s) e.state.machine
  /-- A body passes through what a computation passes through that it begins. -/
  | run {fuel : Nat} {code : FunctionCode} {s t : RunState} {α : Type} {x : Caller → Run α}
    {n : Machine}
      (h : .run x t ∈ (code.traced (.within fuel) s).1)
      (hn : Passes fuel (.computation x t.machine) n) : Passes fuel (.body code s) n

end Work

/-! ### Tasks -/

/-- A script leaves the machine as its body does. -/
theorem FunctionCode.state_runProgram (host : Host) (code : FunctionCode) (m : Machine) :
    (code.runProgram host m).state? = (code.exec host (code.begin m)).state?.map (·.machine) := by
  change (Exec.andThen (inFrame code.begin (code.exec host)) _ m).state? = _
  unfold Exec.andThen inFrame
  cases code.exec host (code.begin m) <;> rfl

namespace Engine

/-- An engine has the machine that a computation leaves behind. -/
theorem state_perform {α : Type} {x : Run α} {e e' : Engine} (h : (e.perform x).state? = some e') :
    (x e.machine).state? = some e'.machine := by
  unfold perform at h
  dsimp only at h
  cases hx : x e.machine with
  | exhausted =>
    rw [hx] at h
    cases h
  | _ =>
    rw [hx] at h
    cases h
    rfl

/-- What is asked of an engine. -/
inductive Task where
  | eval (source : String)
  | run (p : CompiledProgram)
  | call (callee this : Value) (arguments : List Value)
  | construct (callee : Value) (arguments : List Value)

namespace Task

/-- Performs a task. -/
def perform (fuel : Nat) : Task → Engine → Result Value
  | .eval source => Engine.eval fuel source
  | .run p => Engine.run fuel p
  | .call callee this arguments => Engine.call fuel callee this arguments
  | .construct callee arguments => Engine.construct fuel callee arguments

/-- What runs for a task: nothing if a script cannot be compiled. -/
def work? (e : Engine) : Task → Option Work
  | .eval source =>
    match e.compile source with
    | .ok p => some (.body p.code (p.code.begin e.machine))
    | .error _ => none
  | .run p => some (.body p.code (p.code.begin e.machine))
  | .call callee this arguments => some (.call ⟨callee, this, arguments, e.machine⟩)
  | .construct callee arguments => some (.computation (Run.construct · callee arguments) e.machine)

/-- The machines that an engine passes through with a task. -/
def Passes (fuel : Nat) (e : Engine) (t : Task) (n : Machine) : Prop :=
  n = e.machine ∨ ∃ w, t.work? e = some w ∧ w.Passes fuel n

/-- The work for a task is a body, a call or the operator `new` on the machine of the engine. -/
theorem work_cases {e : Engine} {t : Task} {w : Work} (h : t.work? e = some w) :
    (∃ code : FunctionCode, w = .body code (code.begin e.machine)) ∨
    (∃ callee this arguments, w = .call ⟨callee, this, arguments, e.machine⟩) ∨
    ∃ callee arguments, w = .computation (Run.construct · callee arguments) e.machine := by
  cases t with
  | eval source =>
    dsimp only [work?] at h
    generalize e.compile source = compiled at h
    cases compiled with
    | error err => cases h
    | ok p => exact .inl ⟨_, (Option.some.inj h).symm⟩
  | run p => exact .inl ⟨_, (Option.some.inj h).symm⟩
  | call callee this arguments => exact .inr (.inl ⟨_, _, _, (Option.some.inj h).symm⟩)
  | construct callee arguments => exact .inr (.inr ⟨_, _, (Option.some.inj h).symm⟩)

/-- A task without work leaves the engine as it was, and any other one leaves the machine as its
work does. -/
theorem after_perform {fuel : Nat} {e e' : Engine} {t : Task}
    (h : (t.perform fuel e).state? = some e') :
    t.work? e = none ∧ e' = e ∨ ∃ w, t.work? e = some w ∧ w.after? fuel = some e'.machine := by
  have hrun {p : CompiledProgram} (h : (e.run fuel p).state? = some e') :
      (Work.body p.code (p.code.begin e.machine)).after? fuel = some e'.machine := by
    rw [Engine.run] at h
    rw [← state_perform h, FunctionCode.state_runProgram]
    rfl
  cases t with
  | eval source =>
    dsimp only [perform, Engine.eval] at h
    dsimp only [work?]
    cases hp : e.compile source with
    | error err =>
      rw [hp] at h
      exact .inl ⟨rfl, (Option.some.inj h).symm⟩
    | ok p =>
      rw [hp] at h
      exact .inr ⟨_, rfl, hrun h⟩
  | run p => exact .inr ⟨_, rfl, hrun h⟩
  | call callee this arguments => exact .inr ⟨_, rfl, state_perform h⟩
  | construct callee arguments => exact .inr ⟨_, rfl, state_perform h⟩

end Task

end Engine

end ScriptEngine
