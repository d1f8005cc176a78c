import ScriptEngine.Analysis.StaticError
import ScriptEngine.Code.Basic

/-!
# Jumps

The statements around a place that `break` and `continue` may lead to, with their labels.  Such a
statement is told by how many others there are around it, which is enough since a jump only passes
those inside of its target.

## Main definitions

* `JumpTarget` : a statement that can be left or continued.
* `Jumps` : those around a place.
* `Jumps.breakTarget`, `Jumps.continueTarget` : where a jump leads.
-/

namespace ScriptEngine

/-- What kind of statement a jump may lead to. -/
inductive TargetKind where
  | loop | switch | labeled
deriving Repr, DecidableEq, Inhabited

/-- A statement that can be left or continued. -/
structure JumpTarget where
  kind : TargetKind
  labels : List String
  id : TargetId
deriving Repr, Inhabited

/-- The statements around a place, innermost first, and the labels directly in front of it. -/
structure Jumps where
  targets : List JumpTarget
  pending : List String
deriving Repr, Inhabited

namespace Jumps

/-- Nothing around and in front. -/
def none : Jumps := ⟨[], []⟩

/-- Whether a label is taken. -/
def isTaken (j : Jumps) (label : String) : Bool :=
  j.pending.contains label || j.targets.any (·.labels.contains label)

/-- Adds a label in front of a place. -/
def label (j : Jumps) (label : String) : Except StaticError Jumps :=
  if j.isTaken label then .error (.duplicateLabel label)
  else .ok { j with pending := j.pending ++ [label] }

/-- The number of a statement that is opened here. -/
def nextId (j : Jumps) : TargetId :=
  j.targets.length

/-- The inside of a statement, which takes the labels in front of it. -/
def enter (j : Jumps) (kind : TargetKind) : Jumps :=
  ⟨⟨kind, j.pending, j.nextId⟩ :: j.targets, []⟩

/-- The statement with a label. -/
def labeled (j : Jumps) (label : String) : Except StaticError JumpTarget :=
  match j.targets.find? (·.labels.contains label) with
  | some t => .ok t
  | .none => .error (.undefinedLabel label)

/-- The innermost statement of some kinds. -/
def innermost (j : Jumps) (p : TargetKind → Bool) (e : StaticError) :
    Except StaticError JumpTarget :=
  match j.targets.find? fun t => p t.kind with
  | some t => .ok t
  | .none => .error e

/-- The statement that a `break` leaves: the one with its label, or the innermost loop or
`switch`. -/
def breakTarget (j : Jumps) : Option String → Except StaticError TargetId
  | some label => do return (← j.labeled label).id
  | .none => do return (← j.innermost (· != .labeled) .illegalBreak).id

/-- The loop that a `continue` goes on with: the one with its label, or the innermost one. -/
def continueTarget (j : Jumps) (label : Option String) : Except StaticError TargetId := do
  let t ← match label with
    | some label => j.labeled label
    | .none => j.innermost (· == .loop) .illegalContinue
  if t.kind = .loop then return t.id else throw .illegalContinue

end Jumps

end ScriptEngine
