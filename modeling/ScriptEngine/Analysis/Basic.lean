import ScriptEngine.Analysis.Resolution
import ScriptEngine.Analysis.Capture
import ScriptEngine.Analysis.TypeInference

/-!
# Analysis of a script

What is worked out between parsing and compiling: the variable of every name, the records of
captured variables, and the types of the others.

## Main definitions

* `CompileOptions` : how a script is to be taken.
* `analyze` : all tables of a script.
-/

namespace ScriptEngine

/-- How a script is to be taken. -/
structure CompileOptions where
  /-- Whether all of it is strict. -/
  strict : Bool
  /-- Whether value types are inferred. -/
  specialize : Bool
deriving Repr, DecidableEq, Inhabited

/-- All that is known about a script before it runs. -/
def analyze (p : Program) (options : CompileOptions) : Except StaticError Analysis :=
  (Resolve.program options.strict p).map fun a =>
    let a := a.withLayouts
    if options.specialize then a.withTypes p.body else a.untyped

end ScriptEngine
