import ScriptEngine.CommandLine

/-!
# The program

Reads the files that the arguments name, and writes the answer.  Lines are read and answered one by
one.

## Main definitions

* `main` : the program.
-/

namespace ScriptEngine.Shell

/-- Levels of calls and rounds of loops, more than any script ends within. -/
def patience : Nat := 1000000000000000000

/-- Why a file cannot be read. -/
def reason : IO.Error → String
  | .noFileOrDirectory _ code details => s!"{details} (os error {code})"
  | .inappropriateType (some _) code details => s!"{details} (os error {code})"
  | .inappropriateType none code details => s!"{details} (os error {code})"
  | .permissionDenied (some _) code details => s!"{details} (os error {code})"
  | .permissionDenied none code details => s!"{details} (os error {code})"
  | e => e.toString

/-- The text of a file, or why it cannot be read. -/
def readText (path : String) : IO (Except String String) := do
  try
    return .ok (← IO.FS.readFile path)
  catch e =>
    return .error (reason e)

/-- The files that a command names, with what they hold. -/
def readFiles (command : Command) : IO (List (String × Except String String)) := do
  let scripts := match command.mode with
    | .file path => [path]
    | _ => []
  (command.config.toList ++ scripts).mapM fun path => do
    return (path, ← readText path)

/-- Writes an answer. -/
def write (a : Answer) : IO Unit := do
  let output ← IO.getStdout
  output.putStr a.output
  output.flush
  (← IO.getStderr).putStr a.errors

/-- Reads lines and answers them. -/
partial def promptLoop (e : Engine) : IO Unit := do
  let output ← IO.getStdout
  output.putStr promptMark
  output.flush
  let line ← (← IO.getStdin).getLine
  if line.isEmpty then output.putStr farewell
  else
    match LineStep.ofLine line with
    | .leave => output.putStr farewell
    | .ignore => promptLoop e
    | .evaluate code =>
      match showResult true (e.eval patience code) with
      | some (a, e) =>
        write a
        promptLoop e
      | none => output.putStr farewell

/-- Answers lines as they are read, once the settings are known. -/
def prompt (readFile : String → Except String String) (config : Option String) : IO UInt32 := do
  let settings := match config with
    | some path => CommandLine.loadConfig readFile path
    | none => .ok .standard
  match settings with
  | .error e =>
    write (CommandLine.failure e.message)
    return 1
  | .ok settings =>
    write ⟨greeting, "", 0⟩
    promptLoop (.ofConfig settings)
    return 0

/-- Runs the program. -/
def run (arguments : List String) : IO UInt32 := do
  let command := Command.ofArguments arguments
  let files ← readFiles command
  let readFile := fun path => (files.lookup path).getD (.error "")
  if command.mode = .prompt then prompt readFile command.config
  else
    match CommandLine.answer patience ⟨readFile, ""⟩ arguments with
    | some a =>
      write a
      return a.code.toUInt32
    | none => return 1

end ScriptEngine.Shell

/-- The program. -/
def main (arguments : List String) : IO UInt32 :=
  ScriptEngine.Shell.run arguments
