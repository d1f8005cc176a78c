import ScriptEngine.Engine
import ScriptEngine.Text.Blank

/-!
# The command line

What the program does for its arguments: it runs a file, evaluates a piece of code, or reads scripts
line by line.

## Main definitions

* `Command` : what the arguments ask for.
* `Command.ofArguments` : the command of the arguments.
* `answerLines` : what is written while lines are read and evaluated.
* `CommandLine.answer` : all that the program writes for given arguments, files and input.
-/

namespace ScriptEngine

/-- What to do once the settings are known. -/
inductive Mode where
  | file (path : String)
  | eval (code : String)
  | prompt
  | help
  /-- The arguments make no sense. -/
  | misuse
deriving Repr, DecidableEq, Inhabited

/-- What the arguments ask for. -/
structure Command where
  /-- The file with the settings. -/
  config : Option String
  mode : Mode
deriving Repr, DecidableEq, Inhabited

/-- The mode of the arguments without the settings. -/
def Mode.ofArguments : List String → Mode
  | [] => .prompt
  | [argument] => if argument == "-h" || argument == "--help" then .help else .file argument
  | [flag, code] => if flag == "-e" || flag == "--eval" then .eval code else .misuse
  | _ => .misuse

/-- The command of the arguments.  The settings may stand anywhere, and need a file. -/
def Command.ofArguments (arguments : List String) : Command :=
  match arguments.findIdx? (· == "--config") with
  | none => ⟨none, .ofArguments arguments⟩
  | some i =>
    match arguments.drop (i + 1) with
    | [] => ⟨none, .misuse⟩
    | path :: rest => ⟨some path, .ofArguments (arguments.take i ++ rest)⟩

/-- What the program writes, and its exit code. -/
structure Answer where
  output : String
  errors : String
  code : Nat
deriving Repr, DecidableEq, Inhabited

/-- Lines of a text, each of them ended. -/
def textOfLines (lines : List String) : String :=
  String.join (lines.map (· ++ "\n"))

/-- How the program is used. -/
def usage : String :=
  textOfLines
    ["closurejs - JavaScript Engine",
     "",
     "Usage:",
     "  closurejs <file.js>              Execute a JavaScript file",
     "  closurejs -e \"code\"              Evaluate JavaScript code",
     "  closurejs --eval \"code\"          Evaluate JavaScript code",
     "  closurejs                        Start REPL (interactive mode)",
     "",
     "Options:",
     "  --config <file.json>             Load engine settings"]

/-- What is written before the first line is read. -/
def greeting : String :=
  textOfLines
    ["closurejs v0.1.0 - JavaScript Engine",
     "Type JavaScript code and press Enter. Type .exit to quit.",
     ""]

/-- What is written before every line is read. -/
def promptMark : String := "> "

/-- What is written after the last line. -/
def farewell : String := "Goodbye!\n"

/-! ### Scripts -/

/-- What a script writes, and whether it succeeded.  A value other than `undefined` is shown if it
is asked for. -/
def showResult (showValue : Bool) : Engine.Result Value → Option (Answer × Engine)
  | .ok v e =>
    let (written, e) := e.takeOutput
    let shown := match v with
      | .undefined => ""
      | v => if showValue then e.machine.heap.display v ++ "\n" else ""
    some (⟨written ++ shown, "", 0⟩, e)
  | .error err e =>
    let (written, e) := e.takeOutput
    some (⟨written, err.message e.machine.heap ++ "\n", 1⟩, e)
  | .exhausted => none

/-! ### Lines -/

/-- What follows from a line that was read. -/
inductive LineStep where
  | leave
  | ignore
  | evaluate (code : String)
deriving Repr, DecidableEq

/-- What follows from a line: blanks around it do not count. -/
def LineStep.ofLine (line : String) : LineStep :=
  let code := String.ofList (Text.trim Text.isWhiteSpace line.toList)
  if code == ".exit" || code == ".quit" then .leave
  else if code.isEmpty then .ignore
  else .evaluate code

/-- The lines of an input; the last one need not be ended. -/
def inputLines (input : String) : List String :=
  match (input.splitOn "\n").reverse with
  | "" :: rest => rest.reverse
  | lines => lines.reverse

/-- What is written while lines are read. -/
def answerLines (fuel : Nat) (e : Engine) : List String → Option Answer
  | [] => some ⟨promptMark ++ farewell, "", 0⟩
  | line :: rest =>
    match LineStep.ofLine line with
    | .leave => some ⟨promptMark ++ farewell, "", 0⟩
    | .ignore => do
      let after ← answerLines fuel e rest
      return { after with output := promptMark ++ after.output }
    | .evaluate code => do
      let (shown, e) ← showResult true (e.eval fuel code)
      let after ← answerLines fuel e rest
      return ⟨promptMark ++ shown.output ++ after.output, shown.errors ++ after.errors, 0⟩

/-! ### The whole program -/

/-- The world of the program: what files hold, or why they cannot be read, and the input. -/
structure Surroundings where
  readFile : String → Except String String
  input : String

namespace CommandLine

/-- The settings of a file. -/
def loadConfig (readFile : String → Except String String) (path : String) :
    Except ConfigError EngineConfig :=
  match readFile path with
  | .ok text => EngineConfig.ofJson text
  | .error reason => .error (.unreadable path reason)

/-- The answer of a failure. -/
def failure (message : String) : Answer :=
  ⟨"", message ++ "\n", 1⟩

/-- The answer once the settings are known. -/
def answerMode (fuel : Nat) (w : Surroundings) (config : EngineConfig) : Mode → Option Answer
  | .help => some ⟨"", usage, 0⟩
  | .misuse => some ⟨"", usage, 1⟩
  | .eval code => (showResult true ((Engine.ofConfig config).eval fuel code)).map (·.1)
  | .file path =>
    match w.readFile path with
    | .ok source => (showResult false ((Engine.ofConfig config).eval fuel source)).map (·.1)
    | .error reason => some (failure s!"Error reading file '{path}': {reason}")
  | .prompt => do
    let after ← answerLines fuel (Engine.ofConfig config) (inputLines w.input)
    return { after with output := greeting ++ after.output }

/-- All that the program writes for its arguments. -/
def answer (fuel : Nat) (w : Surroundings) (arguments : List String) : Option Answer :=
  let command := Command.ofArguments arguments
  match command.config with
  | none => answerMode fuel w .standard command.mode
  | some path =>
    match loadConfig w.readFile path with
    | .ok config => answerMode fuel w config command.mode
    | .error e => some (failure e.message)

end CommandLine

end ScriptEngine
