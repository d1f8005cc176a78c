import ScriptEngine.Compile.Body
import ScriptEngine.Config.Basic
import ScriptEngine.Run.Call
import ScriptEngine.Script.Build

/-!
# The engine

Scripts run one after the other on a machine that keeps their globals.

## Main definitions

* `Engine` : a machine and the options that scripts are compiled with.
* `EngineError` : why a script has no value.
* `Engine.eval`, `Engine.run` : the value of a script.
* `Engine.call`, `Engine.construct` : calls from outside.
-/

namespace ScriptEngine

/-- A machine and the options that scripts are compiled with. -/
structure Engine where
  machine : Machine
  options : CompileOptions

/-- Why a script has no value. -/
inductive EngineError where
  | parse (e : ParseError)
  | static (e : StaticError)
  | runtime (e : RuntimeError)

/-- The text of a syntax error. -/
def ParseError.message : ParseError → String
  | .grammar _ line column => s!"unexpected text at line {line}, column {column}"
  | .build e => e.message

/-- The text of an error. -/
def EngineError.message (h : Heap) : EngineError → String
  | .parse e => "Parse error: " ++ e.message
  | .static e => "SyntaxError: " ++ e.message
  | .runtime e => e.message h

namespace Engine

/-- How a piece of work on an engine ends. -/
abbrev Result (α : Type) := Ending Engine EngineError α

/-- A new engine. -/
def ofConfig (config : EngineConfig) : Engine :=
  { machine :=
      { heap := .initial, records := .empty, depth := 0, limit := config.maxCallDepth,
        output := "" }
    options := config.compileOptions }

/-- Runs a computation on the machine of an engine. -/
def perform {α : Type} (x : Run α) (e : Engine) : Result α :=
  match e with
  | ⟨machine, options⟩ =>
    match x machine with
    | .ok a machine => .ok a ⟨machine, options⟩
    | .error err machine => .error (.runtime err) ⟨machine, options⟩
    | .exhausted => .exhausted

/-- Compiles a script. -/
def compile (e : Engine) (source : String) : Except EngineError CompiledProgram :=
  match Program.parse source with
  | .error err => .error (.parse err)
  | .ok p =>
    match p.compile e.options with
    | .error err => .error (.static err)
    | .ok compiled => .ok compiled

/-- Runs a compiled script.  Its value is that of its last expression statement. -/
def run (fuel : Nat) (p : CompiledProgram) (e : Engine) : Result Value :=
  e.perform (p.code.runProgram (.within fuel))

/-- Compiles and runs a script. -/
def eval (fuel : Nat) (source : String) (e : Engine) : Result Value :=
  match e.compile source with
  | .error err => .error err e
  | .ok p => e.run fuel p

/-- Calls a value. -/
def call (fuel : Nat) (callee this : Value) (arguments : List Value) (e : Engine) : Result Value :=
  e.perform (callWithin fuel callee this arguments)

/-- Constructs an object. -/
def construct (fuel : Nat) (callee : Value) (arguments : List Value) (e : Engine) : Result Value :=
  e.perform (Run.construct (callWithin fuel) callee arguments)

/-- The value of a global name. -/
def global? (e : Engine) (name : String) : Option Value :=
  let h := e.machine.heap
  let global := Intrinsic.global.ref
  if h.hasProperty global name then some (h.get global name) else none

/-- What was written to the console, which is then empty. -/
def takeOutput (e : Engine) : String × Engine :=
  (e.machine.output, { e with machine := { e.machine with output := "" } })

end Engine

end ScriptEngine
