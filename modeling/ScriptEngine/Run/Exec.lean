import ScriptEngine.Heap.Display

/-!
# Running

Computations that change a state and may fail with an error of the script.  A computation that takes
more steps than it was given has no result at all.

## Main definitions

* `RuntimeError` : errors of scripts.
* `Ending` : how a computation ends.
* `Exec` : computations on a state.
-/

namespace ScriptEngine

/-- Errors of scripts: raised by the engine, or thrown by a statement. -/
inductive RuntimeError where
  | raised (kind : ErrorKind) (message : String)
  | thrown (v : Value)
deriving Repr, Inhabited

/-- The words for a kind of errors. -/
def ErrorKind.words : ErrorKind → String
  | .referenceError => "reference error"
  | .typeError => "type error"
  | .rangeError => "range error"
  | .syntaxError => "syntax error"

/-- The text of an error that nothing caught. -/
def RuntimeError.message (h : Heap) : RuntimeError → String
  | .raised kind m => s!"Uncaught {kind.words}: {m}."
  | .thrown v => "Uncaught " ++ h.display v

/-- How a computation ends: with a result, with an error, or not within its steps.  The state is
kept in both of the first cases. -/
inductive Ending (σ ε α : Type) where
  | ok (result : α) (state : σ)
  | error (e : ε) (state : σ)
  | exhausted
deriving Inhabited

/-- Computations on a state that may fail with an error of the script. -/
def Exec (σ α : Type) : Type :=
  σ → Ending σ RuntimeError α

namespace Exec

variable {σ τ α β : Type}

/-- Yields a result and changes nothing. -/
@[always_inline, inline]
def result (a : α) : Exec σ α :=
  fun s => .ok a s

/-- Goes on with the result of a computation. -/
@[always_inline, inline]
def andThen (x : Exec σ α) (f : α → Exec σ β) : Exec σ β :=
  fun s =>
    match x s with
    | .ok a s => f a s
    | .error e s => .error e s
    | .exhausted => .exhausted

instance : Monad (Exec σ) where
  pure := result
  bind := andThen

/-- Fails with an error. -/
@[always_inline, inline]
def fail (e : RuntimeError) : Exec σ α :=
  fun s => .error e s

/-- Fails with an error of the engine. -/
@[always_inline, inline]
def raise (kind : ErrorKind) (message : String) : Exec σ α :=
  fail (.raised kind message)

/-- Reads from the state. -/
@[always_inline, inline]
def ask (f : σ → α) : Exec σ α :=
  fun s => .ok (f s) s

/-- Changes the state. -/
@[always_inline, inline]
def change (f : σ → σ) : Exec σ Unit :=
  fun s => .ok () (f s)

/-- The computation that takes too many steps. -/
def exhaust : Exec σ α :=
  fun _ => .exhausted

/-- Repeats a step until it yields a result, at most as often as said. -/
def iterate (step : Exec σ (Option α)) : Nat → Exec σ α
  | 0 => exhaust
  | n + 1 => fun s =>
    match step s with
    | .ok none s => iterate step n s
    | .ok (some a) s => .ok a s
    | .error e s => .error e s
    | .exhausted => .exhausted

/-- Takes a step for each item of a list, until one yields a result. -/
def firstResult (step : β → Exec σ (Option α)) : List β → Exec σ (Option α)
  | [] => result none
  | b :: rest => fun s =>
    match step b s with
    | .ok none s => firstResult step rest s
    | .ok (some a) s => .ok (some a) s
    | .error e s => .error e s
    | .exhausted => .exhausted

end Exec

end ScriptEngine
