/-!
# Native functions

The functions that scripts find without defining them.

## Main definitions

* `ErrorKind` : the errors that the engine itself raises.
* `Native` : the functions.
* `Native.name` : the names they are registered under.
-/

namespace ScriptEngine

/-- The kinds of errors that the engine raises. -/
inductive ErrorKind where
  | referenceError | typeError | rangeError | syntaxError
deriving Repr, DecidableEq, Inhabited

namespace ErrorKind

/-- The name of a kind of errors. -/
def name : ErrorKind → String
  | .referenceError => "ReferenceError"
  | .typeError => "TypeError"
  | .rangeError => "RangeError"
  | .syntaxError => "SyntaxError"

/-- The kind of errors with a name. -/
def ofName? : String → Option ErrorKind
  | "ReferenceError" => some .referenceError
  | "TypeError" => some .typeError
  | "RangeError" => some .rangeError
  | "SyntaxError" => some .syntaxError
  | _ => none

end ErrorKind

/-- The native functions. -/
inductive Native where
  /-- The prototype of all functions, which does nothing when called. -/
  | functionPrototype
  | object | objectToString | objectValueOf | hasOwnProperty
  | function | functionCall | functionApply | functionToString
  | array | arrayIsArray | arrayPush | arrayPop | arrayJoin | arrayToString
  /-- The constructor of a kind of errors, or of plain ones. -/
  | error (kind : Option ErrorKind)
  | errorToString
  | consoleLog
deriving Repr, DecidableEq, Inhabited

/-- The name of a native function. -/
def Native.name : Native → String
  | .functionPrototype => ""
  | .object => "Object"
  | .objectToString => "toString"
  | .objectValueOf => "valueOf"
  | .hasOwnProperty => "hasOwnProperty"
  | .function => "Function"
  | .functionCall => "call"
  | .functionApply => "apply"
  | .functionToString => "toString"
  | .array => "Array"
  | .arrayIsArray => "isArray"
  | .arrayPush => "push"
  | .arrayPop => "pop"
  | .arrayJoin => "join"
  | .arrayToString => "toString"
  | .error none => "Error"
  | .error (some kind) => kind.name
  | .errorToString => "toString"
  | .consoleLog => "log"

end ScriptEngine
