/-!
# Static errors

What is wrong with a script that follows the grammar but may not run.

## Main definitions

* `StaticError` : the causes.
* `StaticError.message` : their texts.
-/

namespace ScriptEngine

/-- Why a parsed script may not run. -/
inductive StaticError where
  | restrictedName (name : String)
  | duplicateParameter (name : String)
  | withInStrictMode
  | deleteOfIdentifier (name : String)
  | illegalReturn
  | illegalBreak
  | illegalContinue
  | undefinedLabel (label : String)
  | duplicateLabel (label : String)
  /-- A name without a place to read it from. -/
  | unresolvedIdentifier (name : String)
deriving Repr, DecidableEq

/-- The text of a static error. -/
def StaticError.message : StaticError → String
  | .restrictedName name => s!"Unexpected eval or arguments in strict mode: '{name}'"
  | .duplicateParameter name => s!"Duplicate parameter name not allowed in strict mode: '{name}'"
  | .withInStrictMode => "Strict mode code may not include a with statement"
  | .deleteOfIdentifier name => s!"Delete of an unqualified identifier in strict mode: '{name}'"
  | .illegalReturn => "Illegal return statement"
  | .illegalBreak => "Illegal break statement"
  | .illegalContinue => "Illegal continue statement"
  | .undefinedLabel label => s!"Undefined label '{label}'"
  | .duplicateLabel label => s!"Label '{label}' has already been declared"
  | .unresolvedIdentifier name => s!"Identifier '{name}' was never resolved"

end ScriptEngine
