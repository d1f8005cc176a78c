import ScriptEngine.Analysis.Basic
import ScriptEngine.Config.Json

/-!
# Settings of an engine

How scripts are compiled and how deep calls may go, read from a JSON text: an object with some of
the settings by name, or an array with the first of them.

## Main definitions

* `EngineConfig` : the settings.
* `ConfigError` : why settings cannot be had.
* `EngineConfig.ofJson` : the settings that a text describes.
-/

namespace ScriptEngine

/-- The settings of an engine. -/
structure EngineConfig where
  /-- Whether all scripts are strict. -/
  strict : Bool
  /-- Whether value types are inferred. -/
  specialize : Bool
  /-- The greatest number of calls under way. -/
  maxCallDepth : Nat
deriving Repr, DecidableEq

/-- The settings of an engine about which nothing is said. -/
def EngineConfig.standard : EngineConfig :=
  { strict := false, specialize := true, maxCallDepth := 512 }

instance : Inhabited EngineConfig := ⟨.standard⟩

/-- How the scripts of an engine are compiled. -/
def EngineConfig.compileOptions (c : EngineConfig) : CompileOptions :=
  { strict := c.strict, specialize := c.specialize }

/-- Why settings cannot be had. -/
inductive ConfigError where
  | unreadable (path reason : String)
  | invalid (fault : TextFault)
  | zeroCallDepth
deriving Repr, DecidableEq

/-- What is wrong with a text, in words. -/
def TextFault.words : TextFault → String
  | .malformed => "malformed text"
  | .mismatched => "unexpected data"
  | .truncated => "unexpected end"

/-- The text of an error. -/
def ConfigError.message : ConfigError → String
  | .unreadable path reason => s!"Failed to read config file '{path}': {reason}"
  | .invalid fault => s!"Invalid engine config: {fault.words}"
  | .zeroCallDepth => "max_call_depth must be at least 1"

/-! ### Reading -/

/-- The settings given so far. -/
structure GivenSettings where
  strict : Option Bool
  specialize : Option Bool
  maxCallDepth : Option Nat

namespace GivenSettings

/-- No settings. -/
def none : GivenSettings := ⟨.none, .none, .none⟩

/-- The settings with what was not given taken from the standard. -/
def toConfig (g : GivenSettings) : EngineConfig :=
  { strict := g.strict.getD EngineConfig.standard.strict
    specialize := g.specialize.getD EngineConfig.standard.specialize
    maxCallDepth := g.maxCallDepth.getD EngineConfig.standard.maxCallDepth }

end GivenSettings

namespace Reader

/-- Whether there is another element of an array; the first one follows no comma. -/
def hasElement (first : Bool) : Reader Bool := do
  match ← peekSolid with
  | none => throw .truncated
  | some ']' => return false
  | some c =>
    if first then return true
    else if c == ',' then
      drop
      match ← peekSolid with
      | none => throw .truncated
      | some ']' => throw .malformed
      | some _ => return true
    else throw .malformed

/-- An element of an array, if there is another one. -/
def element {α : Type} (first : Bool) (value : Reader α) : Reader (Option α) := do
  if ← hasElement first then return some (← value) else return none

/-- The rest of an array that is to have no more elements. -/
def endArray : Reader Unit := do
  match ← peekSolid with
  | some ']' => drop
  | some _ => throw .malformed
  | none => throw .truncated

/-- The settings of an array, whose bracket has been read. -/
def arraySettings : Reader GivenSettings := do
  let strict ← element true boolean
  let specialize ← element strict.isNone boolean
  let maxCallDepth ← element specialize.isNone natural
  endArray
  return ⟨strict, specialize, maxCallDepth⟩

/-- Whether there is another member of an object; the first one follows no comma. -/
def hasMember (first : Bool) : Reader Bool := do
  match ← peekSolid with
  | none => throw .truncated
  | some '\x7d' => return false
  | some c =>
    if first then
      if c == '"' then return true else throw .malformed
    else if c == ',' then
      drop
      match ← peekSolid with
      | some '"' => return true
      | some _ => throw .malformed
      | none => throw .truncated
    else throw .malformed

/-- The colon between a name and its value. -/
def colon : Reader Unit := do
  match ← peekSolid with
  | some ':' => drop
  | some _ => throw .malformed
  | none => throw .truncated

/-- The value of a setting that may be given once. -/
def setting {α : Type} (given : Option α) (value : Reader α) : Reader (Option α) := do
  if given.isSome then throw .mismatched
  colon
  return some (← value)

/-- A member of an object. -/
def member (g : GivenSettings) : Reader GivenSettings := do
  match ← string with
  | "strict" => return { g with strict := ← setting g.strict boolean }
  | "specialize" => return { g with specialize := ← setting g.specialize boolean }
  | "max_call_depth" => return { g with maxCallDepth := ← setting g.maxCallDepth natural }
  | _ => throw .mismatched

/-- The members of an object, at most `fuel` of them. -/
def membersWithin (first : Bool) (g : GivenSettings) : Nat → Reader GivenSettings
  | 0 => throw .mismatched
  | fuel + 1 => do
    if ← hasMember first then
      let g ← member g
      membersWithin false g fuel
    else
      drop
      return g

/-- The settings of an object, whose brace has been read.  No name may be given twice, so that a
fourth member is never reached. -/
def objectSettings : Reader GivenSettings :=
  membersWithin true .none 4

/-- The settings of a whole text. -/
def settings : Reader EngineConfig := do
  let given ← match ← peekSolid with
    | some '[' => do
      drop
      arraySettings
    | some '\x7b' => do
      drop
      objectSettings
    | _ => otherValue
  match ← peekSolid with
  | none => return given.toConfig
  | some _ => throw .malformed

end Reader

/-- The settings that a text describes. -/
def EngineConfig.ofJson (text : String) : Except ConfigError EngineConfig :=
  match Reader.settings.run text.toList with
  | .error fault => .error (.invalid fault)
  | .ok (config, _) => if config.maxCallDepth == 0 then .error .zeroCallDepth else .ok config

end ScriptEngine
