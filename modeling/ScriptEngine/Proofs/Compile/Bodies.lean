import ScriptEngine.Proofs.Compile.Statements

/-!
# Code of bodies

The code of a function or of a script runs as its statements do when jumps carry labels.  An
activation gives the code all the slots that it uses.

## Main definitions

* `BodyState.SameVariables` : states that differ in slots of no variable only.
* `Completion.Fits` : how a whole body may end, by code and by statements.
* `FunctionCode.RunsAs` : the code of a body runs as statements.

## Main statements

* `Program.runsAs_of_compile` : all bodies of a compiled script run as their statements.
-/

namespace ScriptEngine

open BodyState

/-- Two states are the same, except for slots in which no variable is kept. -/
structure BodyState.SameVariables (given : BodyState) (s t : RunState) : Prop where
  machine : t.machine = s.machine
  frame : ∃ values, t.frame = { s.frame with values }
  slots : ∀ v i, given.slot? v = some ⟨.boxed, i⟩ → t.frame.values[i]? = s.frame.values[i]?

/-- A whole body ends normally or returns, and a script never returns. -/
inductive Completion.Fits (isProgram : Bool) : Completion → LabelCompletion → Prop where
  | normal : Completion.Fits isProgram .normal .normal
  | ret (v : Value) (h : isProgram = false) : Completion.Fits isProgram (.ret v) (.ret v)

/-- Code and statements end in the same way: with completions that fit, with the same error or not
within their steps.  Nothing but slots in which no variable is kept is different then. -/
def BodyState.SameEnding (given : BodyState) (isProgram : Bool) :
    Ending RunState RuntimeError Completion → Ending RunState RuntimeError LabelCompletion → Prop :=
  Ending.Agree given.SameVariables fun c l s t => c.Fits isProgram l ∧ given.SameVariables s t

/-- An activation of a body, from its entry on. -/
def BodyContext.activation (host : Host) (ctx : BodyContext) (given : BodyState)
    (info : FunctionInfo) (entry : StatementCode) (statements : List Stmt) :
    Act LabelCompletion := do
  keepArguments info
  declareGlobals info.globals
  let _ ← entry.exec host
  runStmts (Evaluator.ofBody host ctx given) statements

/-- The code of a body, compiled with the places that were given in the end, runs as statements: on
every frame that has its slots, and so in every activation. -/
def FunctionCode.RunsAs (host : Host) (ctx : BodyContext) (statements : List Stmt)
    (code : FunctionCode) :
    Prop :=
  ∃ given name paramCount globals entry body,
    code = .mk (Compile.bodyInfo ctx name paramCount globals given) entry body ∧
    (∀ s : RunState, code.info.layout.values ≤ s.frame.values.size →
      given.SameEnding ctx.isProgram (body.exec host s)
        (runStmts (Evaluator.ofBody host ctx given) statements s)) ∧
    ∀ (m : Machine) (this callee arguments : Value) (scope : Option RecordRef),
      given.SameEnding ctx.isProgram
        (code.exec host (m.enterFrame code.info this callee arguments scope))
        (ctx.activation host given code.info entry statements
          (m.enterFrame code.info this callee arguments scope))

/-- All activations of a body end, if they do without an error, with completions of some kind. -/
def FunctionCode.EndsWith (host : Host) (P : Completion → Prop) (code : FunctionCode) : Prop :=
  ∀ (m : Machine) (this callee arguments : Value) (scope : Option RecordRef) (ended : Completion)
    (s : RunState), code.exec host (m.enterFrame code.info this callee arguments scope) =
      .ok ended s →
      P ended

/-! ### States -/

section States

variable {given : BodyState} {s t : RunState}

theorem BodyState.Alike.sameVariables (h : given.Alike s t) : given.SameVariables s t := by
  obtain ⟨held, -, hst⟩ := h
  exact ⟨hst.machine, hst.frame, fun v i hv => (hst.shown i fun hidden => hidden v hv).symm⟩

/-- A frame has all the slots that were given. -/
theorem BodyState.alike_self (h : given.values ≤ s.frame.values.size) : given.Alike s s := by
  refine ⟨fun i => s.frame.values[i]?, ⟨fun i hi _ => ?_, trivial⟩, ⟨_, rfl⟩, rfl, fun _ _ => rfl,
    fun _ _ => rfl⟩
  rw [Option.isSome_iff_exists]
  exact ⟨_, Array.getElem?_eq_getElem (hi.trans_le h)⟩

theorem Jumps.Leads.fits {isProgram : Bool} {c : Completion} {l : LabelCompletion}
    (h : Jumps.none.Leads isProgram c l) : c.Fits isProgram l := by
  cases c <;> cases l <;> try contradiction
  case normal => exact .normal
  case ret v w =>
    obtain ⟨rfl, hprogram⟩ := h
    exact .ret v hprogram
  case brk t label =>
    obtain ⟨u, hu, -⟩ := exists_of_breakTarget h
    cases hu
  case cont t label =>
    obtain ⟨u, hu, -⟩ := exists_of_continueTarget h
    cases hu

theorem Runs.sameEnding {isProgram : Bool} {x : Act Completion} {y : Act LabelCompletion}
    (h : Runs given .none isProgram x y) (hs : given.Alike s s) :
    given.SameEnding isProgram (x s) (y s) :=
  (h hs).mono Alike.sameVariables fun ⟨hcl, hst⟩ => ⟨hcl.fits, hst.sameVariables⟩

end States

/-! ### Entries -/

section Entries

variable {given : BodyState} {host : Host}

/-- Any slot may be written, also one of no variable. -/
theorem same_setSlot (i : Nat) (v : Value) :
    Exec.Same given.Alike (Act.setSlot .boxed i v) (Act.setSlot .boxed i v) := by
  by_cases hidden : given.Hidden i
  · rintro ⟨f, m⟩ ⟨g, n⟩ ⟨held, ⟨hroom, -⟩, hst⟩
    obtain ⟨values, rfl⟩ := hst.frame
    refine .ok ⟨rfl, fun k => (f.values.setIfInBounds i v)[k]?, ⟨fun k hk hkh => ?_, trivial⟩,
      ⟨values.setIfInBounds i v, rfl⟩, hst.machine, fun k hk => ?_, fun _ _ => rfl⟩
    · have hsome := hroom k hk hkh
      rw [← hst.held k hkh] at hsome
      obtain ⟨x, hx⟩ := Option.isSome_iff_exists.mp hsome
      have hbound : k < f.values.size := (Array.getElem?_eq_some_iff.mp hx).1
      exact Option.isSome_iff_exists.mpr ⟨_, Array.getElem?_eq_getElem (by simpa using hbound)⟩
    · have hne : i ≠ k := fun heq => hk (heq ▸ hidden)
      simpa [Frame.setSlot, Array.getElem?_setIfInBounds, hne] using hst.shown k hk
  · exact same_of_ignores fun _ => RunState.ignores_setSlot (ρ := .boxed) hidden v

theorem same_keepArguments (info : FunctionInfo) :
    Exec.Same given.Alike (keepArguments info) (keepArguments info) := by
  refine (same_of_ignores fun _ => RunState.ignores_onFrame fun _ _ => rfl).bind fun arguments => ?_
  refine (same_of_ignores fun _ => RunState.ignores_onFrame fun _ _ => rfl).bind fun own => ?_
  have hslot : Exec.Same given.Alike (info.slotArguments arguments)
      (info.slotArguments arguments) := by
    unfold FunctionInfo.slotArguments
    cases info.argumentsSlot with
    | none => exact Exec.Same.pure ()
    | some slot => exact same_setSlot slot arguments
  cases info.argumentsField with
  | none => exact hslot
  | some field =>
    cases own with
    | none => exact hslot
    | some r => exact (same_of_ignores fun _ => RunState.ignores_lift _).bind fun _ => hslot

theorem same_declareGlobals : ∀ names : List String,
    Exec.Same given.Alike (declareGlobals names) (declareGlobals names)
  | [] => Exec.Same.pure ()
  | name :: rest => by
    unfold declareGlobals
    refine (same_of_ignores fun _ => RunState.ignores_onHeap _).bind fun found => ?_
    cases found with
    | true => exact same_declareGlobals rest
    | false =>
      exact (same_of_ignores fun _ => RunState.ignores_lift _).bind fun _ =>
        same_declareGlobals rest

/-- The entry of a body uses no slot in which no variable is kept. -/
theorem same_entry : ∀ {cs : List StatementCode}, Compile.PlacedEntry ctx given cs →
    Exec.Same given.Alike (execList host cs) (execList host cs)
  | [], _ => by
    rw [execList]
    exact Exec.Same.pure _
  | c :: rest, h => by
    obtain ⟨hc, hrest⟩ := List.forall_mem_cons.mp h
    obtain ⟨code, rfl, hcode⟩ := hc
    rw [execList, eval_effect, bind_assoc]
    exact (same_of_ignores (Compile.ignores_value hcode)).bind fun _ => same_entry hrest

end Entries

/-! ### Bodies -/

namespace Compile

variable {host : Host} {ctx : BodyContext} {given : BodyState} {statements : List Stmt}

section

variable {entry body : List StatementCode}
  (hbody : Runs given .none ctx.isProgram (execList host body)
    (runStmts (Evaluator.ofBody host ctx given) statements))
  (hentry : PlacedEntry ctx given entry)
include hbody hentry

/-- An activation of a body ends as its statements do after its entry. -/
theorem sameEnding_activation (name : String) (paramCount : Nat) (globals : List String)
    (m : Machine) (this callee arguments : Value) (scope : Option RecordRef) :
    given.SameEnding ctx.isProgram
      ((FunctionCode.mk (bodyInfo ctx name paramCount globals given) (.block entry)
        (.block body)).exec host
        (m.enterFrame (bodyInfo ctx name paramCount globals given) this callee arguments scope))
      (ctx.activation host given (bodyInfo ctx name paramCount globals given)
        (.block entry) statements
        (m.enterFrame (bodyInfo ctx name paramCount globals given) this callee arguments
          scope)) := by
  have hactivation : Runs given .none ctx.isProgram
      ((FunctionCode.mk (bodyInfo ctx name paramCount globals given) (.block entry)
        (.block body)).exec host)
      (ctx.activation host given (bodyInfo ctx name paramCount globals given) (.block entry)
        statements) := by
    unfold FunctionCode.exec BodyContext.activation
    refine (same_keepArguments _).bindTo id fun _ => (same_declareGlobals _).bindTo id fun _ => ?_
    rw [StatementCode.exec, StatementCode.exec]
    exact (same_entry hentry).bindTo id fun _ => hbody
  refine hactivation.sameEnding (alike_self ?_)
  simp [Machine.enterFrame, bodyInfo, BodyState.layout]

/-- A body runs as its statements if its statements and its entry were compiled in one go. -/
theorem runsAs_of_ensures {name : String} {paramCount : Nat} {globals : List String} :
    (FunctionCode.mk (bodyInfo ctx name paramCount globals given) (.block entry)
      (.block body)).RunsAs host ctx statements := by
  refine ⟨given, name, paramCount, globals, .block entry, .block body, rfl, fun s hs => ?_,
    sameEnding_activation hbody hentry name paramCount globals⟩
  rw [StatementCode.exec]
  exact hbody.sameEnding (alike_self hs)

end

theorem sound_initial : BodyState.initial.Sound ctx :=
  ⟨nofun, nofun, nofun, List.nodup_nil⟩

theorem ensures_body (host : Host) (ctx : BodyContext) (ss : List Stmt) :
    Ensures ctx (fun given cs => Runs given .none ctx.isProgram (execList host cs)
      (runStmts (Evaluator.ofBody host ctx given) ss)) (stmtList ctx .none ss) :=
  ensures_stmtList host ctx ss .none Jumps.sound_none rfl

/-- What is known of the state that a compilation ends in. -/
theorem Ensures.of_run {α : Type} {R : BodyState → α → Prop} {x : Compile α}
    (hx : Ensures ctx R x) {a : α} {given : BodyState} (h : x.run .initial = .ok (a, given)) :
    R given a :=
  (hx h).2 sound_initial (.refl given)

/-- The code of a body and of its entry. -/
abbrev BodyRuns (host : Host) (ctx : BodyContext) (ss : List Stmt) (given : BodyState)
    (r : List StatementCode × List StatementCode) : Prop :=
  Runs given .none ctx.isProgram (execList host r.1)
    (runStmts (Evaluator.ofBody host ctx given) ss) ∧
    PlacedEntry ctx given r.2

/-- The code of the statements of a function and of its entry. -/
def functionParts (ctx : BodyContext) (body : List Stmt) :
    Compile (List StatementCode × List StatementCode) := do
  let statements ← stmtList ctx .none body
  let self ← selfEntry ctx
  let declared ← hoistList ctx body
  return (statements, self ++ declared)

/-- The code of the statements of a script and of its entry. -/
def scriptParts (ctx : BodyContext) (body : List Stmt) :
    Compile (List StatementCode × List StatementCode) := do
  let statements ← stmtList ctx .none body
  let entry ← hoistList ctx body
  return (statements, entry)

theorem ensures_functionParts (body : List Stmt) :
    Ensures ctx (BodyRuns host ctx body) (functionParts ctx body) :=
  (ensures_body host ctx body).bind fun _ => (Ensures.of_steady steady_selfEntry).bind fun _ =>
    (Ensures.of_steady (steady_hoistList body)).bind fun _ => .pure fun _ hdeclared hself hbody =>
      ⟨hbody, placedEntry_append hself.2 hdeclared.2⟩

theorem ensures_scriptParts (body : List Stmt) :
    Ensures ctx (BodyRuns host ctx body) (scriptParts ctx body) :=
  (ensures_body host ctx body).bind fun _ =>
    (Ensures.of_steady (steady_hoistList body)).bind fun _ =>
    .pure fun _ hdeclared hbody => ⟨hbody, hdeclared.2⟩

/-- The code of a function comes from its parts. -/
theorem func_eq_ok {a : Analysis} {f : Func} {code : FunctionCode} (h : func a f = .ok code) :
    ∃ statements entry given name paramCount,
      (functionParts (.ofBody a f.id false) f.body).run .initial =
        .ok ((statements, entry), given) ∧
      code = .mk (bodyInfo (.ofBody a f.id false) name paramCount [] given) (.block entry)
        (.block statements) := by
  obtain ⟨span, id, name, params, strict, isExpression, bodySpan, body⟩ := f
  rw [func] at h
  obtain ⟨⟨⟨statements, entry⟩, given⟩, hrun, hcode⟩ := except_bind_eq_ok h
  cases hcode
  exact ⟨statements, entry, given, _, _, hrun, rfl⟩

/-- The code of a script comes from its parts. -/
theorem program_eq_ok {a : Analysis} {p : Program} {code : FunctionCode}
    (h : program a p = .ok code) :
    ∃ statements entry given globals,
      (scriptParts (.ofBody a 0 true) p.body).run .initial = .ok ((statements, entry), given) ∧
      code = .mk (bodyInfo (.ofBody a 0 true) "" 0 globals given) (.block entry)
        (.block statements) := by
  obtain ⟨⟨⟨statements, entry⟩, given⟩, hrun, hcode⟩ := except_bind_eq_ok h
  cases hcode
  exact ⟨statements, entry, given, _, hrun, rfl⟩

/-- The code of a function runs as the statements of the function. -/
theorem runsAs_of_func {a : Analysis} {f : Func} {code : FunctionCode} (h : func a f = .ok code) :
    code.RunsAs host (BodyContext.ofBody a f.id false) f.body := by
  obtain ⟨statements, entry, given, name, paramCount, hrun, rfl⟩ := func_eq_ok h
  obtain ⟨hbody, hentry⟩ := (ensures_functionParts f.body).of_run hrun
  exact runsAs_of_ensures hbody hentry

theorem runsAs_of_program {a : Analysis} {p : Program} {code : FunctionCode}
    (h : program a p = .ok code) :
    code.RunsAs host (BodyContext.ofBody a 0 true) p.body := by
  obtain ⟨statements, entry, given, globals, hrun, rfl⟩ := program_eq_ok h
  obtain ⟨hbody, hentry⟩ := (ensures_scriptParts p.body).of_run hrun
  exact runsAs_of_ensures hbody hentry

end Compile

theorem Completion.Fits.ends {isProgram : Bool} {c : Completion} {l : LabelCompletion}
    (h : c.Fits isProgram l) : c = .normal ∨ isProgram = false ∧ ∃ v, c = .ret v := by
  cases h with
  | normal => exact .inl rfl
  | ret v hprogram => exact .inr ⟨hprogram, v, rfl⟩

theorem FunctionCode.RunsAs.endsWith {host : Host} {ctx : BodyContext} {statements : List Stmt}
    {code : FunctionCode} (h : code.RunsAs host ctx statements) :
    code.EndsWith host fun c => c = .normal ∨ ctx.isProgram = false ∧ ∃ v, c = .ret v := by
  obtain ⟨given, name, paramCount, globals, entry, body, -, -, hactivation⟩ := h
  intro m this callee arguments scope ended s hs
  have hends := hactivation m this callee arguments scope
  rw [hs] at hends
  generalize ctx.activation host given code.info entry statements _ = ending at hends
  cases hends with
  | ok h => exact h.1.ends

/-- The code of every body of a compiled script runs as the statements of the body do when jumps
carry labels.  So no jump leaves a body, and a script does not return. -/
theorem Program.runsAs_of_compile (host : Host) (p : Program) (options : CompileOptions)
    (c : CompiledProgram) (h : p.compile options = .ok c) :
    (c.code.RunsAs host (BodyContext.ofBody c.analysis 0 true) p.body ∧
      c.code.EndsWith host fun ended => ended = .normal) ∧
    ∀ (f : Func) (code : FunctionCode), Compile.func c.analysis f = .ok code →
      code.RunsAs host (BodyContext.ofBody c.analysis f.id false) f.body ∧
        code.EndsWith host fun ended => ended = .normal ∨ ∃ v, ended = .ret v := by
  obtain ⟨analysis, -, h⟩ := Compile.except_bind_eq_ok h
  obtain ⟨code, hcode, h⟩ := Compile.except_bind_eq_ok h
  cases h
  have hscript : code.RunsAs host (BodyContext.ofBody analysis 0 true) p.body :=
    Compile.runsAs_of_program hcode
  refine ⟨⟨hscript, fun m this callee arguments scope ended s hs => ?_⟩, fun f code hf => ?_⟩
  · rcases hscript.endsWith m this callee arguments scope ended s hs with h | ⟨h, -⟩
    · exact h
    · cases h
  · have hfunc : code.RunsAs host (BodyContext.ofBody analysis f.id false) f.body :=
      Compile.runsAs_of_func hf
    exact ⟨hfunc, fun m this callee arguments scope ended s hs =>
      (hfunc.endsWith m this callee arguments scope ended s hs).imp_right And.right⟩

/-- A function that returns. -/
def Func.onlyReturn : Func :=
  .mk default 1 (some ⟨0, "f", default⟩) [] false false default [.ret default none]

/-- A loop that a `break` leaves by its label, and a function that returns. -/
def Program.labelledLoop : Program where
  span := default
  body := [
    .labeled default "outer" (.while default (.literal default (.boolean true))
      (.brk default (some "outer"))),
    .function .onlyReturn]
  strict := false
  functionCount := 2
  nodeCount := 1

theorem Program.runsAs_labelledLoop : ∃ c, labelledLoop.compile ⟨false, true⟩ = .ok c ∧
    c.code.RunsAs (Host.within 4) (BodyContext.ofBody c.analysis 0 true) labelledLoop.body ∧
    ∃ code, Compile.func c.analysis .onlyReturn = .ok code ∧
      code.RunsAs (Host.within 4) (BodyContext.ofBody c.analysis Func.onlyReturn.id false)
        Func.onlyReturn.body := by
  obtain ⟨c, hc, code, hcode⟩ : ∃ c, labelledLoop.compile ⟨false, true⟩ = .ok c ∧
      ∃ code, Compile.func c.analysis .onlyReturn = .ok code := ⟨_, rfl, _, rfl⟩
  have h := Program.runsAs_of_compile (Host.within 4) labelledLoop ⟨false, true⟩ c hc
  exact ⟨c, hc, h.1.1, code, hcode, (h.2 .onlyReturn code hcode).1⟩

end ScriptEngine
