import ScriptEngine.Proofs.Compile.Meaning
import ScriptEngine.Proofs.Compile.Stability
import ScriptEngine.Proofs.Script.Semantics

/-!
# Jumps in compiled bodies

Compilation gives every jump the number of the statement that it leads to.  The code of a body runs
as its statements do when jumps carry labels and every statement knows the labels in front of it:
with the same completion, the same errors and the same effects.  Only the slots in which the code
keeps the values of `switch` statements make a difference, and no variable is kept there.

## Main definitions

* `Jumps.Leads` : a completion with a numbered jump is one with a label.
* `BodyState.Alike` : states that differ in slots of no variable only.
* `Evaluator.ofBody` : expressions evaluate as their code does.

## Main statements

* `Jumps.Leads.afterBody`, `Jumps.Leads.leavingSwitch`, `Jumps.Leads.leaving` : what statements do
  with completions, in both ways of saying.
* `Compile.ensures_expr` : the code of an expression has its value.
-/

namespace ScriptEngine

/-! ### Targets -/

namespace Jumps

variable {j : Jumps} {isProgram : Bool} {c : Completion} {l : LabelCompletion}

/-- The targets around a place are numbered from outside, and none has a label of those in front. -/
structure Sound (j : Jumps) : Prop where
  below : ∀ t ∈ j.targets, t.id < j.nextId
  fresh : ∀ x ∈ j.pending, ∀ t ∈ j.targets, x ∉ t.labels

theorem sound_none : Jumps.none.Sound :=
  ⟨nofun, nofun⟩

theorem Sound.enter (h : j.Sound) (kind : TargetKind) : (j.enter kind).Sound := by
  refine ⟨fun t ht => ?_, nofun⟩
  rcases List.mem_cons.mp ht with rfl | ht
  · exact Nat.lt_succ_self _
  · exact Nat.lt_succ_of_lt (h.below t ht)

theorem Sound.label {k : Jumps} {x : String} (h : j.Sound) (hk : j.label x = .ok k) :
    k.Sound ∧ k.targets = j.targets ∧ k.pending = j.pending ++ [x] := by
  unfold Jumps.label at hk
  split at hk
  · cases hk
  · next htaken =>
    cases hk
    refine ⟨⟨h.below, fun y hy t ht hyt => ?_⟩, rfl, rfl⟩
    rcases List.mem_append.mp hy with hy | hy
    · exact h.fresh y hy t ht hyt
    · obtain rfl := List.mem_singleton.mp hy
      refine htaken (Bool.or_eq_true_iff.mpr (.inr (List.any_eq_true.mpr ⟨t, ht, ?_⟩)))
      exact List.contains_iff_mem.mpr hyt

/-- A completion of code is one of a statement: jumps lead to the statement with the label. -/
def Leads (j : Jumps) (isProgram : Bool) : Completion → LabelCompletion → Prop
  | .normal, .normal => True
  | .ret v, .ret w => v = w ∧ isProgram = false
  | .brk t, .brk label => j.breakTarget label = .ok t
  | .cont t, .cont label => j.continueTarget label = .ok t
  | _, _ => False

theorem Leads.of_targets {k : Jumps} (h : j.Leads isProgram c l) (hk : k.targets = j.targets) :
    k.Leads isProgram c l := by
  obtain ⟨targets, pending⟩ := j
  obtain ⟨targets', pending'⟩ := k
  obtain rfl : targets' = targets := hk
  cases c <;> cases l <;> exact h

theorem breakTarget_enter_some (kind : TargetKind) (x : String) :
    (j.enter kind).breakTarget (some x) =
    if x ∈ j.pending then .ok j.nextId else j.breakTarget (some x) := by
  simp only [breakTarget, labeled, enter, List.find?_cons]
  by_cases hx : x ∈ j.pending
  · simp [hx]
  · simp [hx]

theorem breakTarget_enter_none (kind : TargetKind) : (j.enter kind).breakTarget .none =
    if kind = .labeled then j.breakTarget .none else .ok j.nextId := by
  cases kind <;> rfl

theorem continueTarget_enter_some (kind : TargetKind) (x : String) :
    (j.enter kind).continueTarget (some x) =
      if x ∈ j.pending then if kind = .loop then .ok j.nextId else .error .illegalContinue
      else j.continueTarget (some x) := by
  simp only [continueTarget, labeled, enter, List.find?_cons]
  by_cases hx : x ∈ j.pending
  · cases kind <;> simp [hx] <;> rfl
  · simp [hx]

theorem continueTarget_enter_none (kind : TargetKind) : (j.enter kind).continueTarget .none =
    if kind = .loop then .ok j.nextId else j.continueTarget .none := by
  cases kind <;> rfl

theorem exists_of_labeled {x : String} {u : JumpTarget} (h : j.labeled x = .ok u) :
    u ∈ j.targets ∧ x ∈ u.labels := by
  unfold labeled at h
  split at h
  · next hfind =>
    cases h
    exact ⟨List.mem_of_find?_eq_some hfind, by simpa using List.find?_some hfind⟩
  · cases h

theorem mem_of_innermost {p : TargetKind → Bool} {e : StaticError} {u : JumpTarget}
    (h : j.innermost p e = .ok u) : u ∈ j.targets := by
  unfold innermost at h
  split at h
  · next hfind =>
    cases h
    exact List.mem_of_find?_eq_some hfind
  · cases h

/-- A `break` leads to a statement around it, which has its label. -/
theorem exists_of_breakTarget {label : Option String} {t : TargetId}
    (h : j.breakTarget label = .ok t) :
    ∃ u ∈ j.targets, u.id = t ∧ ∀ x ∈ label, x ∈ u.labels := by
  cases label with
  | some x =>
    cases hu : j.labeled x with
    | error e => rw [breakTarget, hu] at h; cases h
    | ok u =>
      rw [breakTarget, hu] at h
      cases h
      obtain ⟨hmem, hx⟩ := exists_of_labeled hu
      exact ⟨u, hmem, rfl, by simpa using hx⟩
  | none =>
    cases hu : j.innermost (· != .labeled) .illegalBreak with
    | error e => rw [breakTarget, hu] at h; cases h
    | ok u =>
      rw [breakTarget, hu] at h
      cases h
      exact ⟨u, mem_of_innermost hu, rfl, nofun⟩

/-- A `continue` leads to a statement around it. -/
theorem exists_of_continueTarget {label : Option String} {t : TargetId}
    (h : j.continueTarget label = .ok t) : ∃ u ∈ j.targets, u.id = t := by
  have hloop {u : JumpTarget}
      (h : (if u.kind = .loop then .ok u.id else .error StaticError.illegalContinue) =
        Except.ok t) :
      u.id = t := by
    split at h
    · cases h; rfl
    · cases h
  cases label with
  | some x =>
    cases hu : j.labeled x with
    | error e => rw [continueTarget, hu] at h; cases h
    | ok u =>
      rw [continueTarget, hu] at h
      exact ⟨u, (exists_of_labeled hu).1, hloop h⟩
  | none =>
    cases hu : j.innermost (· == .loop) .illegalContinue with
    | error e => rw [continueTarget, hu] at h; cases h
    | ok u =>
      rw [continueTarget, hu] at h
      exact ⟨u, mem_of_innermost hu, hloop h⟩

theorem Sound.breakTarget_ne (h : j.Sound) {label : Option String} {t : TargetId}
    (ht : j.breakTarget label = .ok t) : t ≠ j.nextId := by
  obtain ⟨u, hu, rfl, -⟩ := exists_of_breakTarget ht
  exact Nat.ne_of_lt (h.below u hu)

theorem Sound.continueTarget_ne (h : j.Sound) {label : Option String} {t : TargetId}
    (ht : j.continueTarget label = .ok t) : t ≠ j.nextId := by
  obtain ⟨u, hu, rfl⟩ := exists_of_continueTarget ht
  exact Nat.ne_of_lt (h.below u hu)

/-! ### What statements do with completions -/

/-- A loop goes on after its body in both ways of saying, or ends with completions that fit. -/
theorem Leads.afterBody (h : (j.enter .loop).Leads isProgram c l) (hj : j.Sound) :
    Option.Rel (j.Leads isProgram) (c.afterBody j.nextId) (l.afterBody j.pending) := by
  cases c <;> cases l <;> try contradiction
  case normal => exact .none
  case ret => exact .some h
  case brk t label =>
    cases label with
    | none =>
      rw [Leads, breakTarget_enter_none] at h
      cases h
      simp only [Completion.afterBody, LabelCompletion.afterBody, beq_self_eq_true, if_true]
      exact .some trivial
    | some x =>
      rw [Leads, breakTarget_enter_some] at h
      simp only [Completion.afterBody, LabelCompletion.afterBody]
      split at h
      · next hx =>
        cases h
        simp only [beq_self_eq_true, if_true, if_pos hx]
        exact .some trivial
      · next hx =>
        rw [if_neg hx, if_neg (by simpa using hj.breakTarget_ne h)]
        exact .some h
  case cont t label =>
    cases label with
    | none =>
      rw [Leads, continueTarget_enter_none] at h
      cases h
      simp only [Completion.afterBody, LabelCompletion.afterBody, beq_self_eq_true, if_true]
      exact .none
    | some x =>
      rw [Leads, continueTarget_enter_some] at h
      simp only [Completion.afterBody, LabelCompletion.afterBody]
      split at h
      · next hx =>
        cases h
        simp only [beq_self_eq_true, if_true, if_pos hx]
        exact .none
      · next hx =>
        rw [if_neg hx, if_neg (by simpa using hj.continueTarget_ne h)]
        exact .some h

/-- Leaving a `switch`. -/
theorem Leads.leavingSwitch (h : (j.enter .switch).Leads isProgram c l) (hj : j.Sound) :
    j.Leads isProgram (c.leaving j.nextId) (l.leavingSwitch j.pending) := by
  cases c <;> cases l <;> try contradiction
  case normal => trivial
  case ret => exact h
  case brk t label =>
    cases label with
    | none =>
      rw [Leads, breakTarget_enter_none] at h
      cases h
      simp only [Completion.leaving, LabelCompletion.leavingSwitch, beq_self_eq_true, if_true]
      trivial
    | some x =>
      rw [Leads, breakTarget_enter_some] at h
      simp only [Completion.leaving, LabelCompletion.leavingSwitch]
      split at h
      · next hx =>
        cases h
        simp only [beq_self_eq_true, if_true, if_pos hx]
        trivial
      · next hx =>
        rw [if_neg hx, if_neg (by simpa using hj.breakTarget_ne h)]
        exact h
  case cont t label =>
    cases label with
    | none =>
      rw [Leads, continueTarget_enter_none] at h
      exact h
    | some x =>
      rw [Leads, continueTarget_enter_some] at h
      split at h
      · cases h
      · exact h

/-- Leaving another statement with labels. -/
theorem Leads.leaving (h : (j.enter .labeled).Leads isProgram c l) (hj : j.Sound) :
    j.Leads isProgram (c.leaving j.nextId) (l.leaving j.pending) := by
  cases c <;> cases l <;> try contradiction
  case normal => trivial
  case ret => exact h
  case brk t label =>
    cases label with
    | none =>
      rw [Leads, breakTarget_enter_none, if_pos rfl] at h
      simp only [Completion.leaving, LabelCompletion.leaving]
      rw [if_neg (by simpa using hj.breakTarget_ne h)]
      exact h
    | some x =>
      rw [Leads, breakTarget_enter_some] at h
      simp only [Completion.leaving, LabelCompletion.leaving]
      split at h
      · next hx =>
        cases h
        simp only [beq_self_eq_true, if_true, if_pos hx]
        trivial
      · next hx =>
        rw [if_neg hx, if_neg (by simpa using hj.breakTarget_ne h)]
        exact h
  case cont t label =>
    cases label with
    | none =>
      rw [Leads, continueTarget_enter_none] at h
      exact h
    | some x =>
      rw [Leads, continueTarget_enter_some] at h
      split at h
      · cases h
      · exact h

/-- No jump out of a statement leads to the labels in front of it. -/
theorem Leads.leaving_pending (h : j.Leads isProgram c l) (hj : j.Sound) :
    l.leaving j.pending = l := by
  cases c <;> cases l <;> try contradiction
  case brk t label =>
    cases label with
    | none => rfl
    | some x =>
      obtain ⟨u, hu, -, hx⟩ := exists_of_breakTarget h
      exact if_neg fun hmem => hj.fresh x hmem u hu (hx x rfl)
  all_goals rfl

end Jumps

/-! ### States -/

namespace BodyState

variable {given : BodyState} {α : Type}

/-- Two states differ in slots of no variable only; the first one has all of these, with contents of
which something holds. -/
def AlikeWith (given : BodyState) (P : (Nat → Option Value) → Prop) (s t : RunState) : Prop :=
  ∃ held, ((∀ i < given.values, given.Hidden i → (held i).isSome) ∧ P held) ∧
    RunState.Hides given.Hidden held s t

/-- Two states differ in slots of no variable only. -/
def Alike (given : BodyState) : RunState → RunState → Prop :=
  given.AlikeWith fun _ => True

/-- Two states differ in slots of no variable only, and one of these holds a value. -/
def AlikeHolding (given : BodyState) (i : Nat) (v : Value) : RunState → RunState → Prop :=
  given.AlikeWith fun held => held i = some v

theorem AlikeHolding.alike {i : Nat} {v : Value} {s t : RunState} (h : given.AlikeHolding i v s t) :
    given.Alike s t := by
  obtain ⟨held, ⟨hroom, -⟩, hst⟩ := h
  exact ⟨held, ⟨hroom, trivial⟩, hst⟩

/-- What ignores hidden slots does the same in both states. -/
theorem same_of_ignores {P : (Nat → Option Value) → Prop} {x : Act α}
    (h : ∀ held, RunState.Ignores given.Hidden held x) : Exec.Same (given.AlikeWith P) x x := by
  rintro s t ⟨held, hroom, hst⟩
  exact (h held hst).mono (fun h => ⟨held, hroom, h⟩) fun h => ⟨h.1, held, hroom, h.2⟩

/-- A value is kept in a slot of no variable. -/
theorem relates_keep {i : Nat} (hi : i < given.values) (hidden : given.Hidden i) (v : Value) :
    Exec.Relates given.Alike given.Alike (fun _ _ => given.AlikeHolding i v)
      (Act.setSlot .boxed i v) (pure () : Act Unit) := by
  rintro ⟨f, m⟩ ⟨g, n⟩ ⟨held, ⟨hroom, -⟩, hst⟩
  obtain ⟨values, rfl⟩ := hst.frame
  have hbound : i < f.values.size := by
    have hsome := hroom i hi hidden
    rw [← hst.held i hidden] at hsome
    obtain ⟨x, hx⟩ := Option.isSome_iff_exists.mp hsome
    exact (Array.getElem?_eq_some_iff.mp hx).1
  refine .ok ⟨fun k => if k = i then some v else held k, ⟨fun k hk hkh => ?_, if_pos rfl⟩,
    ⟨values, rfl⟩, hst.machine, fun k hk => ?_, fun k hk => ?_⟩
  · dsimp only
    split
    · rfl
    · exact hroom k hk hkh
  · have hne : i ≠ k := fun heq => hk (heq ▸ hidden)
    simpa [Frame.setSlot, Array.getElem?_setIfInBounds, hne] using hst.shown k hk
  · by_cases heq : i = k
    · subst heq
      simp [Frame.setSlot, hbound]
    · simpa [Frame.setSlot, Array.getElem?_setIfInBounds, heq, Ne.symm heq] using hst.held k hk

/-- A value that is kept can be read. -/
theorem AlikeHolding.slot {i : Nat} {v : Value} {s t : RunState} (h : given.AlikeHolding i v s t)
    (hidden : given.Hidden i) : s.frame.slot .boxed i = v := by
  obtain ⟨held, ⟨-, hv⟩, hst⟩ := h
  simp only [Frame.slot, hst.held i hidden, hv, Option.getD_some]

end BodyState

/-! ### Expressions -/

/-- Expressions evaluate as their code does, with the places that were given in the end. -/
def Evaluator.ofBody (host : Host) (ctx : BodyContext) (given : BodyState) : Evaluator where
  value e :=
    match Compile.expr ctx e given with
    | .ok (c, _) => c.value host
    | .error _ => Exec.exhaust
  assign target v :=
    match Compile.forInPlace ctx target given with
    | .ok (place, _) => do (← place.resolve host).write v
    | .error _ => Exec.exhaust
  enter id object :=
    match Compile.withEntry ctx id object given with
    | .ok (c, _) => do let _ ← c.value host
    | .error _ => Exec.exhaust
  isProgram := ctx.isProgram
  rounds := host.rounds

namespace Compile

open BodyState

variable {host : Host} {ctx : BodyContext} {given : BodyState}

/-- Code has the value of an expression, and hidden slots do not matter for it. -/
structure Evaluates (host : Host) (ctx : BodyContext) (given : BodyState) (e : Expr)
    (c : TypedCode) :
    Prop where
  value : (Evaluator.ofBody host ctx given).value e = c.value host
  ignores : ∀ held, RunState.Ignores given.Hidden held (c.value host)

theorem ignores_value {c : TypedCode} (h : PlacedCode ctx given c) (held : Nat → Option Value) :
    RunState.Ignores given.Hidden held (c.value host) :=
  (RunState.ignores_code c.code (h.mono fun _ => Placed.shown)).bind fun _ _ =>
    RunState.ignores_pure _

theorem ensures_expr (host : Host) (ctx : BodyContext) (e : Expr) :
    Ensures ctx (fun given c => Evaluates host ctx given e c) (expr ctx e) := by
  refine (Ensures.of_steady (steady_expr e)).mono fun given c h => ⟨?_, ignores_value h.2⟩
  simp only [Evaluator.ofBody, h.1]

end Compile

end ScriptEngine
