import ScriptEngine.Proofs.Compile.Jumps

/-!
# Code of statements

The code of a body runs as its statements do, with numbers in place of labels: it ends in the same
way and leaves the same state behind, slots of no variable apart.

## Main definitions

* `Runs` : code runs as statements do.
* `Compile.StmtRuns` : the code of a statement runs as the statement, with the labels in front of
  it.

## Main statements

* `Runs.loop`, `Runs.repeats`, `Runs.keys` : loops.
* `Compile.ensures_stmt` : the code of a statement runs as the statement.
-/

namespace ScriptEngine

open BodyState

-- The equations for statements are made here, once for all the lemmas that use them.
attribute [local grind =] Stmt.run

/-! ### Running alike -/

section Runs

variable {host : Host} {given : BodyState} {j : Jumps} {p : Bool} {x : Act Completion}
  {y : Act LabelCompletion}

/-- Code runs as statements do: they end in the same way, and leave states behind that differ in
slots of no variable only. -/
def Runs (given : BodyState) (j : Jumps) (p : Bool) (x : Act Completion) (y : Act LabelCompletion) :
    Prop :=
  Exec.Relates given.Alike given.Alike (fun c l s t => j.Leads p c l ∧ given.Alike s t) x y

namespace Runs

theorem done {c : Completion} {l : LabelCompletion} (h : j.Leads p c l) :
    Runs given j p (pure c) (pure l) :=
  Exec.Relates.pure fun hst => ⟨h, hst⟩

/-- What both do first does not depend on slots of no variable. -/
theorem bind {α : Type} {z : Act α} {f : α → Act Completion} {g : α → Act LabelCompletion}
    (hz : ∀ held, RunState.Ignores given.Hidden held z) (h : ∀ a, Runs given j p (f a) (g a)) :
    Runs given j p (z >>= f) (z >>= g) :=
  (same_of_ignores hz).bindTo id h

/-- Something that only the code does first. -/
theorem after {α : Type} {S : RunState → RunState → Prop} {z : Act α} {f : α → Act Completion}
    (hz : Exec.Relates given.Alike given.Alike (fun _ _ => S) z (pure ()))
    (h : ∀ a, Exec.Relates S given.Alike (fun c l s t => j.Leads p c l ∧ given.Alike s t) (f a) y) :
    Runs given j p (z >>= f) y :=
  Exec.Relates.bind hz (g := fun _ => y) fun a _ => h a

theorem map {k : Jumps} {f : Completion → Completion} {g : LabelCompletion → LabelCompletion}
    (h : Runs given k p x y) (hfg : ∀ c l, k.Leads p c l → j.Leads p (f c) (g l)) :
    Runs given j p (do return f (← x)) (do return g (← y)) :=
  Exec.Relates.bind h fun c l _ _ hst => .ok ⟨hfg c l hst.1, hst.2⟩

/-- Statements after others, which run only if these end normally. -/
theorem andThen {x' : Act Completion} {y' : Act LabelCompletion} (h : Runs given j p x y)
    (h' : Runs given j p x' y') :
    Runs given j p
      (do match ← x with
        | .normal => x'
        | abrupt => return abrupt)
      (do match ← y with
        | .normal => y'
        | abrupt => return abrupt) := by
  refine Exec.Relates.bind h fun c l s t hst => ?_
  obtain ⟨hcl, hst⟩ := hst
  cases c <;> cases l <;> first
    | exact h' hst
    | exact absurd hcl id
    | exact .ok ⟨hcl, hst⟩

theorem catching {f : RuntimeError → Act Completion} {g : RuntimeError → Act LabelCompletion}
    (h : Runs given j p x y) (hfg : ∀ e, Runs given j p (f e) (g e)) :
    Runs given j p (catching x f) (catchingError y g) := by
  intro s t hst
  have hxy := h hst
  unfold ScriptEngine.catching catchingError
  generalize x s = a at hxy
  generalize y t = b at hxy
  cases hxy with
  | ok h => exact .ok h
  | error h => exact hfg _ h
  | exhausted => exact .exhausted

/-- How statements end that replace others unless they end normally. -/
theorem agree_replacing {a : Ending RunState RuntimeError Completion}
    {b : Ending RunState RuntimeError LabelCompletion}
    {k : RunState → Ending RunState RuntimeError Completion}
    {k' : RunState → Ending RunState RuntimeError LabelCompletion}
    (hk : ∀ {s t}, given.Alike s t →
      (k s).Agree given.Alike (fun c l s t => j.Leads p c l ∧ given.Alike s t) (k' t)) :
    a.Agree given.Alike (fun c l s t => j.Leads p c l ∧ given.Alike s t) b →
    (match a with
      | .ok .normal s => k s
      | ending => ending).Agree given.Alike (fun c l s t => j.Leads p c l ∧ given.Alike s t)
    (match b with
      | .ok .normal s => k' s
      | ending => ending) := by
  intro h
  cases h with
  | @ok c l s t h =>
    obtain ⟨hcl, hst⟩ := h
    cases c <;> cases l <;> first
      | exact hk hst
      | exact absurd hcl id
      | exact .ok ⟨hcl, hst⟩
  | error h => exact .error h
  | exhausted => exact .exhausted

theorem finalizing {x' : Act Completion} {y' : Act LabelCompletion} (h : Runs given j p x y)
    (h' : Runs given j p x' y') :
    Runs given j p (finalizing x x') (finallyRunning y y') := by
  intro s t hst
  have hxy := h hst
  unfold ScriptEngine.finalizing finallyRunning
  generalize x s = a at hxy
  generalize y t = b at hxy
  cases hxy with
  | ok h => exact agree_replacing (fun hst => .ok ⟨h.1, hst⟩) (h' h.2)
  | error h => exact agree_replacing (fun hst => .error hst) (h' h)
  | exhausted => exact .exhausted

/-- Steps that go on together or end alike. -/
def Steps (given : BodyState) (j : Jumps) (p : Bool) (x : Act (Option Completion))
    (y : Act (Option LabelCompletion)) : Prop :=
  Exec.Relates given.Alike given.Alike
    (fun c l s t => Option.Rel (j.Leads p) c l ∧ given.Alike s t) x y

theorem iterate {x : Act (Option Completion)} {y : Act (Option LabelCompletion)}
    (h : Steps given j p x y) (n : Nat) : Runs given j p (Exec.iterate x n) (Exec.iterate y n) := by
  induction n with
  | zero => exact fun _ _ _ => .exhausted
  | succ n ih =>
    rw [Exec.iterate_succ, Exec.iterate_succ]
    refine Exec.Relates.bind h fun c l s t hst => ?_
    obtain ⟨hcl, hst⟩ := hst
    cases hcl with
    | none => exact ih hst
    | some hcl => exact .ok ⟨hcl, hst⟩

theorem firstResult {β : Type} {x : β → Act (Option Completion)}
    {y : β → Act (Option LabelCompletion)} (h : ∀ b, Steps given j p (x b) (y b)) (l : List β) :
    Steps given j p (Exec.firstResult x l) (Exec.firstResult y l) := by
  induction l with
  | nil => exact Exec.Relates.pure fun hst => ⟨.none, hst⟩
  | cons b rest ih =>
    rw [Exec.firstResult_cons, Exec.firstResult_cons]
    refine Exec.Relates.bind (h b) fun c l s t hst => ?_
    obtain ⟨hcl, hst⟩ := hst
    cases hcl with
    | none => exact ih hst
    | some hcl => exact .ok ⟨.some hcl, hst⟩

/-! ### Loops -/

variable {test : Act Bool} {update : Act Unit}

/-- A loop that tests first. -/
theorem loop {code : Code .boolean} {next body : StatementCode} {run : Act LabelCompletion}
    (hj : j.Sound) (heq : code.eval host = test)
    (htest : ∀ held, RunState.Ignores given.Hidden held test)
    (hnext : next.exec host = update >>= fun _ => pure .normal)
    (hupdate : ∀ held, RunState.Ignores given.Hidden held update)
    (hbody : Runs given (j.enter .loop) p (body.exec host) run) :
    Runs given j p ((StatementCode.loop j.nextId code next body).exec host)
      (loopWhile test update run j.pending host.rounds) := by
  rw [StatementCode.exec, heq, hnext]
  refine iterate ((same_of_ignores htest).bindTo id fun b => ?_) _
  cases b with
  | false => exact Exec.Relates.pure fun hst => ⟨.some trivial, hst⟩
  | true =>
    refine Exec.Relates.bind hbody fun c l s t hst => ?_
    obtain ⟨hcl, hst⟩ := hst
    have hrel := hcl.afterBody hj
    generalize c.afterBody j.nextId = c' at hrel
    generalize l.afterBody j.pending = l' at hrel
    cases hrel with
    | none =>
      have hsame := (same_of_ignores hupdate).bindTo id fun _ =>
        (Exec.Relates.pure fun hst => ⟨.none, hst⟩ : Steps given j p (pure none) (pure none))
      rw [bind_assoc]
      exact hsame hst
    | some hcl => exact .ok ⟨.some hcl, hst⟩

/-- A loop that tests last. -/
theorem repeats {code : Code .boolean} {body : StatementCode} {run : Act LabelCompletion}
    (hj : j.Sound) (heq : code.eval host = test)
    (htest : ∀ held, RunState.Ignores given.Hidden held test)
    (hbody : Runs given (j.enter .loop) p (body.exec host) run) :
    Runs given j p ((StatementCode.repeat j.nextId body code).exec host)
      (repeatWhile test run j.pending host.rounds) := by
  rw [StatementCode.exec, heq]
  refine iterate (Exec.Relates.bind hbody fun c l s t hst => ?_) _
  obtain ⟨hcl, hst⟩ := hst
  have hrel := hcl.afterBody hj
  generalize c.afterBody j.nextId = c' at hrel
  generalize l.afterBody j.pending = l' at hrel
  cases hrel with
  | none =>
    have hstep (b : Bool) : Steps given j p
        (if b then pure none else pure (some Completion.normal))
        (if b then pure none else pure (some LabelCompletion.normal)) := by
      cases b
      · exact Exec.Relates.pure fun hst => ⟨.some trivial, hst⟩
      · exact Exec.Relates.pure fun hst => ⟨.none, hst⟩
    exact (same_of_ignores htest).bindTo id hstep hst
  | some hcl => exact .ok ⟨.some hcl, hst⟩

/-- A loop over keys. -/
theorem keys {body : Act Completion} {run : Act LabelCompletion} (hj : j.Sound) (v : Value)
    {assign : Value → Act Unit} (hassign : ∀ v held, RunState.Ignores given.Hidden held (assign v))
    (hbody : Runs given (j.enter .loop) p body run) :
    Runs given j p (forKeys v assign body j.nextId) (forEachKey v assign run j.pending) := by
  unfold forKeys forEachKey
  split
  · exact .done trivial
  · refine bind (fun _ => RunState.ignores_lift _) fun o => ?_
    cases o with
    | object r =>
      refine bind (fun _ => RunState.ignores_onHeap _) fun keys => ?_
      have hvisit (key : String) : Steps given j p (visitKey r key assign body j.nextId) (do
          if ← Act.onHeap (·.hasProperty r key) then
            assign (.string key)
            return (← run).afterBody j.pending
          else return none) := by
        refine (same_of_ignores fun _ => RunState.ignores_onHeap _).bindTo id fun b => ?_
        cases b with
        | false => exact Exec.Relates.pure fun hst => ⟨.none, hst⟩
        | true =>
          refine (same_of_ignores (hassign _)).bindTo id fun _ => ?_
          exact Exec.Relates.bind hbody fun c l s t hst => .ok ⟨hst.1.afterBody hj, hst.2⟩
      refine Exec.Relates.bind (firstResult hvisit keys) fun c l s t hst => ?_
      obtain ⟨hcl, hst⟩ := hst
      cases hcl with
      | none => exact .ok ⟨trivial, hst⟩
      | some hcl => exact .ok ⟨hcl, hst⟩
    | _ => exact .done trivial

end Runs

end Runs

/-! ### Labels -/

theorem LabelCompletion.leaving_nil (l : LabelCompletion) : l.leaving [] = l := by
  cases l with
  | brk label => cases label <;> rfl
  | _ => rfl

theorem LabelCompletion.leaving_leaving (l : LabelCompletion) (xs ys : List String) :
    (l.leaving xs).leaving ys = l.leaving (ys ++ xs) := by
  cases l with
  | brk label =>
    cases label with
    | none => rfl
    | some x =>
      simp only [leaving, List.mem_append]
      by_cases hx : x ∈ xs
      · simp [hx]
      · simp [hx]
  | _ => rfl

/-- Only loops, `switch` and labelled statements look at the labels in front of them. -/
theorem Stmt.run_of_takesLabels {ev : Evaluator} {s : Stmt} (hs : s.takesLabels = false)
    (labels labels' : List String) : s.run ev labels = s.run ev labels' := by
  cases s with
  | conditional _ _ _ alternate => cases alternate <;> simp only [Stmt.run]
  | ret _ argument => cases argument <;> simp only [Stmt.run]
  | tryCatch _ _ h f => cases h <;> cases f <;> simp only [Stmt.run]
  | labeled | «while» | doWhile | «for» | forIn | «switch» => cases hs
  | _ => simp only [Stmt.run]

namespace Compile

variable {host : Host} {ctx : BodyContext} {j : Jumps}

/-- The code of a statement runs as the statement with the labels in front of it, all of which are
left after it. -/
def StmtRuns (host : Host) (ctx : BodyContext) (j : Jumps) (s : Stmt) (given : BodyState)
    (code : StatementCode) : Prop :=
  Exec.Relates given.Alike given.Alike
    (fun c l s t => j.Leads ctx.isProgram c (l.leaving j.pending) ∧ given.Alike s t)
    (code.exec host) (s.run (Evaluator.ofBody host ctx given) j.pending)

variable {given : BodyState} {s : Stmt} {code : StatementCode}

theorem StmtRuns.of_runs (hj : j.Sound)
    (h : Runs given j ctx.isProgram (code.exec host)
      (s.run (Evaluator.ofBody host ctx given) j.pending)) : StmtRuns host ctx j s given code :=
  h.mono id id fun ⟨hcl, hst⟩ => ⟨by rwa [hcl.leaving_pending hj], hst⟩

theorem StmtRuns.runs (h : StmtRuns host ctx j s given code) (hp : j.pending = []) :
    Runs given j ctx.isProgram (code.exec host) (s.run (Evaluator.ofBody host ctx given) []) := by
  unfold StmtRuns at h
  rw [hp] at h
  exact h.mono id id fun ⟨hcl, hst⟩ => ⟨by rwa [LabelCompletion.leaving_nil] at hcl, hst⟩

/-! ### Parts of statements -/

theorem bind_of_ok {α β : Type} {x : Compile α} {f : α → Compile β} {s s' : BodyState} {a : α}
    (h : x s = .ok (a, s')) : (x >>= f) s = f a s' := by
  change (x s >>= fun r => f r.1 r.2) = f a s'
  rw [h]
  rfl

theorem Evaluates.eval_boxed {e : Expr} {c : TypedCode} (h : Evaluates host ctx given e c) :
    (c.inRep .boxed).eval host = (Evaluator.ofBody host ctx given).value e := by
  rw [TypedCode.eval_inRep_boxed, h.value]

theorem Evaluates.eval_test {e : Expr} {c : TypedCode} (h : Evaluates host ctx given e c) :
    (c.inRep .boolean).eval host = (Evaluator.ofBody host ctx given).test e := by
  rw [TypedCode.eval_inRep_boolean, Evaluator.test, h.value, map_eq_pure_bind]

theorem Evaluates.exec_effect {e : Expr} {c : TypedCode} (h : Evaluates host ctx given e c) :
    c.effect.exec host = (Evaluator.ofBody host ctx given).effect e >>= fun _ => pure .normal := by
  rw [eval_effect, Evaluator.effect, h.value, bind_assoc]
  rfl

theorem Evaluates.ignores_value {e : Expr} {c : TypedCode} (h : Evaluates host ctx given e c)
    (held : Nat → Option Value) :
    RunState.Ignores given.Hidden held ((Evaluator.ofBody host ctx given).value e) := by
  rw [h.value]
  exact h.ignores held

theorem Evaluates.ignores_test {e : Expr} {c : TypedCode} (h : Evaluates host ctx given e c)
    (held : Nat → Option Value) :
    RunState.Ignores given.Hidden held ((Evaluator.ofBody host ctx given).test e) :=
  (h.ignores_value held).bind fun _ _ => RunState.ignores_pure _

theorem Evaluates.ignores_effect {e : Expr} {c : TypedCode} (h : Evaluates host ctx given e c)
    (held : Nat → Option Value) :
    RunState.Ignores given.Hidden held ((Evaluator.ofBody host ctx given).effect e) :=
  (h.ignores_value held).bind fun _ _ => RunState.ignores_pure _

/-- Code for the effects of something that hidden slots do not matter for. -/
structure Performs (given : BodyState) (code : Act Completion) (x : Act Unit) : Prop where
  exec : code = x >>= fun _ => pure .normal
  ignores : ∀ held, RunState.Ignores given.Hidden held x

theorem Evaluates.performs {e : Expr} {c : TypedCode} (h : Evaluates host ctx given e c) :
    Performs given (c.effect.exec host) ((Evaluator.ofBody host ctx given).effect e) :=
  ⟨h.exec_effect, h.ignores_effect⟩

theorem Performs.nothing : Performs given (StatementCode.skip.exec host) (pure ()) :=
  ⟨rfl, fun _ => RunState.ignores_pure _⟩

theorem Performs.single {c : StatementCode} {x : Act Unit} (h : Performs given (c.exec host) x) :
    Performs given (execList host [c]) x := by
  refine ⟨?_, h.ignores⟩
  rw [execList, h.exec, bind_assoc]
  rfl

/-- The last statement of a list runs if the others end normally. -/
theorem execList_concat (c : StatementCode) : ∀ cs : List StatementCode, execList host (cs ++ [c]) =
    execList host cs >>= fun ended =>
      match ended with
      | .normal => c.exec host
      | abrupt => pure abrupt
  | [] => by
    simp only [List.nil_append, execList, pure_bind]
    refine (bind_congr fun ended => ?_).trans (bind_pure _)
    cases ended <;> rfl
  | first :: rest => by
    simp only [List.cons_append, execList, execList_concat c rest, bind_assoc]
    refine bind_congr fun ended => ?_
    cases ended <;> rfl

/-- A statement after what is done for its effects. -/
theorem Performs.andThen {cs : List StatementCode} {x : Act Unit}
    (h : Performs given (execList host cs) x) {c : StatementCode} {y : Act LabelCompletion}
    (hc : Runs given j ctx.isProgram (c.exec host) y) :
    Runs given j ctx.isProgram ((StatementCode.block (cs ++ [c])).exec host)
      (x >>= fun _ => y) := by
  rw [StatementCode.exec, execList_concat, h.exec, bind_assoc]
  exact Runs.bind h.ignores fun _ => hc

theorem ensures_jump (target : Except StaticError TargetId) :
    Ensures ctx (fun _ t => target = .ok t) (jump target) := by
  cases target with
  | ok t => exact .pure fun _ => rfl
  | error e => exact .throw e

/-- The code of a declaration gives the variables their values. -/
theorem ensures_declaratorList (host : Host) (ctx : BodyContext) (ds : List Declarator) :
    Ensures ctx (fun given cs => Performs given (execList host cs)
      (runDeclarators (Evaluator.ofBody host ctx given) ds)) (declaratorList ctx ds) := by
  induction ds with
  | nil =>
    rw [declaratorList]
    exact .pure fun given => ⟨rfl, fun _ => RunState.ignores_pure _⟩
  | cons d rest ih =>
    obtain ⟨span, name, init⟩ := d
    cases init with
    | none =>
      rw [declaratorList]
      exact ih
    | some init =>
      rw [declaratorList]
      refine (Ensures.of_steady (steady_identifier name)).bind fun a =>
        (Ensures.of_steady (steady_expr init)).bind fun v => ih.bind fun cs =>
          .pure fun given hcs hv ha => ?_
      have hassign : Evaluates host ctx given (.assign span .plain (.identifier name) init)
          (a.store v) := by
        refine ⟨?_, Compile.ignores_value (within_store ha.2 hv.2)⟩
        have hcode : expr ctx (.assign span .plain (.identifier name) init) given =
            .ok (a.store v, given) := by
          rw [expr, bind_of_ok ha.1, bind_of_ok hv.1]
          rfl
        simp only [Evaluator.ofBody, hcode]
      refine ⟨?_, fun held => (hassign.ignores_effect held).bind fun _ _ => hcs.ignores held⟩
      rw [execList, hassign.exec_effect, runDeclarators, bind_assoc, bind_assoc]
      simp only [pure_bind, hcs.exec]

theorem ensures_forInPlace (host : Host) (ctx : BodyContext) (left : ForInTarget) :
    Ensures ctx (fun given place => (∀ v, (Evaluator.ofBody host ctx given).assign left v =
        (place.resolve host >>= fun p => p.write v)) ∧ place.Within (Placed ctx given))
      (forInPlace ctx left) := by
  refine (Ensures.of_steady (steady_forInPlace left)).mono fun given place h => ⟨fun v => ?_, h.2⟩
  simp only [Evaluator.ofBody, h.1]

theorem ensures_withEntry (host : Host) (ctx : BodyContext) (id : NodeId) (object : Expr) :
    Ensures ctx (fun given c => Performs given (c.effect.exec host)
      ((Evaluator.ofBody host ctx given).enter id object)) (withEntry ctx id object) := by
  refine (Ensures.of_steady (steady_withEntry id object)).mono fun given c h => ?_
  have henter : (Evaluator.ofBody host ctx given).enter id object = c.value host >>= fun _ =>
      pure () := by
    simp only [Evaluator.ofBody, h.1]
  rw [henter]
  refine ⟨by rw [eval_effect, bind_assoc]; rfl, fun held => ?_⟩
  exact (Compile.ignores_value h.2 held).bind fun _ _ => RunState.ignores_pure _

/-! ### Heads of loops -/

theorem ensures_forInit (host : Host) (ctx : BodyContext) (init : ForInit) :
    Ensures ctx (fun given cs => Performs given (execList host cs)
      (init.run (Evaluator.ofBody host ctx given))) (forInit ctx init) := by
  cases init with
  | nothing => exact .pure fun _ => .nothing
  | declaration span ds => exact ensures_declaratorList host ctx ds
  | expression e =>
    exact (ensures_expr host ctx e).bind fun c => .pure fun given hc => hc.performs.single

theorem ensures_forTest (host : Host) (ctx : BodyContext) (test : Option Expr) :
    Ensures ctx (fun given c => c.eval host = (Evaluator.ofBody host ctx given).optionalTest test ∧
      ∀ held, RunState.Ignores given.Hidden held
        ((Evaluator.ofBody host ctx given).optionalTest test))
      (forTest ctx test) := by
  cases test with
  | none => exact .pure fun _ => ⟨rfl, fun _ => RunState.ignores_pure _⟩
  | some e =>
    exact (ensures_expr host ctx e).bind fun c => .pure fun given hc =>
      ⟨hc.eval_test, hc.ignores_test⟩

theorem ensures_forUpdate (host : Host) (ctx : BodyContext) (update : Option Expr) :
    Ensures ctx (fun given c => Performs given (c.exec host)
      ((Evaluator.ofBody host ctx given).optionalEffect update)) (forUpdate ctx update) := by
  cases update with
  | none => exact .pure fun _ => .nothing
  | some e => exact (ensures_expr host ctx e).bind fun c => .pure fun given hc => hc.performs

/-! ### Clauses -/

/-- Whether code is that of a default clause. -/
def ClauseCode.isOtherwise : ClauseCode → Bool
  | .otherwise _ => true
  | .case .. => false

/-- The codes of the clauses of a `switch` are tried and run as the clauses. -/
structure ClausesRun (host : Host) (ctx : BodyContext) (j : Jumps) (slot : Nat)
    (clauses : List SwitchClause) (given : BodyState) (codes : List ClauseCode) : Prop where
  find : given.Hidden slot → ∀ v index, Exec.Relates (given.AlikeHolding slot v) given.Alike
    (fun a b s t => a = b ∧ given.AlikeHolding slot v s t) (findClause host index codes)
    (matchingClause (Evaluator.ofBody host ctx given) v index clauses)
  default : codes.findIdx? ClauseCode.isOtherwise = clauses.findIdx? SwitchClause.isDefault
  run : ∀ start, Runs given j ctx.isProgram (execClauses host start codes)
    (runClauses (Evaluator.ofBody host ctx given) start clauses)

/-- The test of a clause compares the contents of the slot with the value of the expression. -/
theorem eval_equals {slot : Nat} {c : TypedCode} :
    ((specializeBinary .strictlyEqual ⟨.boxed, .slot .boxed slot⟩ c).inRep .boolean).eval host =
      Act.onFrame (·.slot .boxed slot) >>= fun v => c.value host >>= fun x =>
        pure (v.strictlyEqual x) := by
  have hslot : TypedCode.value host ⟨.boxed, .slot .boxed slot⟩ =
      Act.onFrame (·.slot .boxed slot) :=
    bind_pure _
  have hequal (v x : Value) : Act.lift (Run.binary host.call .strictlyEqual v x) =
      pure (Value.boolean (v.strictlyEqual x)) := by
    cases hb : v.strictlyEqual x <;> simp [Run.binary, BinaryOp.family, Run.equal, hb]
  rw [TypedCode.eval_inRep_boolean, value_specializeBinary, hslot]
  simp only [hequal, map_eq_pure_bind, bind_assoc, pure_bind]
  rfl

/-- The test of a clause compares the value of the `switch`, which is in a slot of no variable. -/
theorem relates_test {slot : Nat} (hidden : given.Hidden slot) {e : Expr} {c : TypedCode}
    (h : Evaluates host ctx given e c) (v : Value) :
    Exec.Relates (given.AlikeHolding slot v) given.Alike
      (fun a b s t => a = b ∧ given.AlikeHolding slot v s t)
      (((specializeBinary .strictlyEqual ⟨.boxed, .slot .boxed slot⟩ c).inRep .boolean).eval host)
      (do return v.strictlyEqual (← (Evaluator.ofBody host ctx given).value e)) := by
  rw [eval_equals, h.value]
  intro s t hst
  have hread : (Act.onFrame (·.slot .boxed slot) >>= fun v => c.value host >>= fun x =>
      pure (v.strictlyEqual x) : Act Bool) s =
        (c.value host >>= fun x => pure (v.strictlyEqual x)) s := by
    change (c.value host >>= fun x =>
      pure ((s.frame.slot .boxed slot).strictlyEqual x) : Act Bool) s = _
    rw [hst.slot hidden]
  rw [hread]
  exact (same_of_ignores h.ignores).bindTo (fun h => AlikeHolding.alike h)
    (fun x => Exec.Relates.pure fun h => ⟨rfl, h⟩)
    hst

namespace ClausesRun

variable {slot : Nat} {clauses : List SwitchClause} {codes : List ClauseCode}

/-- A clause runs if the start is reached, and those after it then run as well. -/
theorem clause (h : ClausesRun host ctx j slot clauses given codes) {x : Act Completion}
    {y : Act LabelCompletion} (hxy : Runs given j ctx.isProgram x y) (start : Nat) :
    Runs given j ctx.isProgram
      (if start == 0 then do
        match ← x with
        | .normal => execClauses host 0 codes
        | abrupt => return abrupt
      else execClauses host (start - 1) codes)
      (if start = 0 then do
        match ← y with
        | .normal => runClauses (Evaluator.ofBody host ctx given) 0 clauses
        | abrupt => return abrupt
      else runClauses (Evaluator.ofBody host ctx given) (start - 1) clauses) := by
  cases start with
  | zero => exact hxy.andThen (h.run 0)
  | succ start => exact h.run start

/-- A clause is the first one that matches if its test holds. -/
theorem tested (h : ClausesRun host ctx j slot clauses given codes)
    (hidden : given.Hidden slot) {e : Expr} {c : TypedCode} (hc : Evaluates host ctx given e c)
    (v : Value) (index : Nat) :
    Exec.Relates (given.AlikeHolding slot v) given.Alike
      (fun a b s t => a = b ∧ given.AlikeHolding slot v s t)
      (do
        if ← ((specializeBinary .strictlyEqual ⟨.boxed, .slot .boxed slot⟩ c).inRep .boolean).eval
          host then
          return some index
        else findClause host (index + 1) codes)
      (do
        if v.strictlyEqual (← (Evaluator.ofBody host ctx given).value e) then return some index
        else matchingClause (Evaluator.ofBody host ctx given) v (index + 1) clauses) := by
  have hboth := Exec.Relates.bind (relates_test hidden hc v) (P := fun a b s t =>
    a = b ∧ given.AlikeHolding slot v s t) (f := fun b =>
      if b then pure (some index) else findClause host (index + 1) codes) (g := fun b =>
      if b then pure (some index)
      else matchingClause (Evaluator.ofBody host ctx given) v (index + 1) clauses)
        fun a b s t hst => by
    obtain ⟨rfl, hst⟩ := hst
    cases a with
    | false => exact h.find hidden v (index + 1) hst
    | true => exact .ok ⟨rfl, hst⟩
  rw [bind_assoc] at hboth
  simpa only [pure_bind] using hboth

/-- A `switch` keeps its value in a slot of no variable while a clause is looked for. -/
theorem enters (h : ClausesRun host ctx (j.enter .switch) slot clauses given codes) (hj : j.Sound)
    (hslot : given.Hidden slot ∧ slot < given.values) (v : Value) :
    Runs given j ctx.isProgram
      (do
        Act.setSlot .boxed slot v
        let matching ← findClause host 0 codes
        match switchStart codes matching with
        | some start => return (← execClauses host start codes).leaving j.nextId
        | none => return .normal)
      (do
        let matching ← matchingClause (Evaluator.ofBody host ctx given) v 0 clauses
        match matching.or (clauses.findIdx? SwitchClause.isDefault) with
        | some start =>
          return (← runClauses (Evaluator.ofBody host ctx given) start clauses).leavingSwitch
            j.pending
        | none => return .normal) := by
  have hfrom (matching : Option Nat) : Runs given j ctx.isProgram
      (match switchStart codes matching with
        | some start => do return (← execClauses host start codes).leaving j.nextId
        | none => return .normal)
      (match matching.or (clauses.findIdx? SwitchClause.isDefault) with
        | some start => do
          return (← runClauses (Evaluator.ofBody host ctx given) start clauses).leavingSwitch
            j.pending
        | none => return .normal) := by
    have hstart : switchStart codes matching =
        matching.or (clauses.findIdx? SwitchClause.isDefault) := by
      rw [← h.default]
      rfl
    rw [hstart]
    split
    · next start _ => exact (h.run start).map fun _ _ hcl => hcl.leavingSwitch hj
    · exact .done trivial
  refine Runs.after (relates_keep hslot.2 hslot.1 v) fun _ => ?_
  refine Exec.Relates.bind (h.find hslot.1 v 0) fun a b s t hst => ?_
  obtain ⟨rfl, hst⟩ := hst
  exact hfrom a (AlikeHolding.alike hst)

end ClausesRun

/-! ### Kinds of statements -/

/-- The code of a block runs as the block. -/
def BlockRuns (host : Host) (ctx : BodyContext) (j : Jumps) (b : Block) (given : BodyState)
    (c : StatementCode) : Prop :=
  Runs given j ctx.isProgram (c.exec host) (b.run (Evaluator.ofBody host ctx given))

/-- The code of a `catch` clause runs as the clause after whatever the code of the block runs as. -/
def HandlerRuns (host : Host) (ctx : BodyContext) (j : Jumps) (body : StatementCode) (h : Handler)
    (given : BodyState) (c : StatementCode) : Prop :=
  ∀ y, Runs given j ctx.isProgram (body.exec host) y → Runs given j ctx.isProgram (c.exec host)
    (catchingError y (h.run (Evaluator.ofBody host ctx given)))

section Kinds

variable {span : Span}

theorem ensures_expression (e : Expr) (hj : j.Sound) :
    Ensures ctx (StmtRuns host ctx j (.expression span e)) (stmt ctx j (.expression span e)) := by
  refine (ensures_expr host ctx e).bind fun c => .pure fun given hc => .of_runs hj ?_
  rw [Stmt.run]
  change Runs given j ctx.isProgram _ (do
    let v ← (Evaluator.ofBody host ctx given).value e
    if ctx.isProgram then Act.changeFrame fun f => { f with completion := v }
    return .normal)
  split
  · rw [StatementCode.exec, hc.eval_boxed]
    exact .bind hc.ignores_value fun v => .bind (fun _ => RunState.ignores_complete v) fun _ =>
      .done trivial
  · rw [eval_effect, hc.value]
    exact .bind hc.ignores fun v => .done trivial

theorem ensures_ret (argument : Option Expr) (hj : j.Sound) :
    Ensures ctx (StmtRuns host ctx j (.ret span argument)) (stmt ctx j (.ret span argument)) := by
  cases argument with
  | none =>
    rw [stmt_ret_none]
    split
    · exact .throw _
    · next hprogram => exact .pure fun given => .of_runs hj (.done ⟨rfl, by simpa using hprogram⟩)
  | some e =>
    rw [stmt_ret_some]
    split
    · exact .throw _
    · next hprogram =>
      refine (ensures_expr host ctx e).bind fun c => .pure fun given hc => .of_runs hj ?_
      rw [StatementCode.exec, hc.eval_boxed, Stmt.run]
      exact .bind hc.ignores_value fun v => .done ⟨rfl, by simpa using hprogram⟩

theorem ensures_labeled {label : String} {body : Stmt} (hj : j.Sound)
    (hbody : ∀ k : Jumps, k.Sound → (body.takesLabels = false → k.pending = []) →
      Ensures ctx (StmtRuns host ctx k body) (stmt ctx k body)) :
    Ensures ctx (StmtRuns host ctx j (.labeled span label body))
      (stmt ctx j (.labeled span label body)) := by
  rw [stmt_labeled]
  split
  · exact .throw _
  · next k hk =>
    obtain ⟨hk, htargets, hpending⟩ := hj.label hk
    -- The labels in front of the body are those in front of the whole, and its own one.
    have hleaves (l : LabelCompletion) :
        (l.leaving [label]).leaving j.pending = l.leaving k.pending := by
      rw [LabelCompletion.leaving_leaving, hpending]
    split
    · next htakes =>
      refine (hbody k hk fun h => absurd htakes (by simp [h])).mono fun given c hc => ?_
      rw [StmtRuns, Stmt.run, ← hpending, ← bind_pure (c.exec host)]
      refine Exec.Relates.bind hc fun c l _ _ hst => .ok ⟨?_, hst.2⟩
      rw [hleaves]
      exact hst.1.of_targets htargets.symm
    · next htakes =>
      refine (hbody (k.enter .labeled) (hk.enter _) fun _ => rfl).bind fun c =>
        .pure fun given hc => ?_
      rw [StmtRuns, StatementCode.exec, Stmt.run,
        Stmt.run_of_takesLabels (by simpa using htakes) _ []]
      refine Exec.Relates.bind (hc.runs rfl) fun c l _ _ hst => .ok ⟨?_, hst.2⟩
      rw [hleaves]
      exact (hst.1.leaving hk).of_targets htargets.symm

theorem ensures_conditional {test : Expr} {consequent : Stmt} {alternate : Option Stmt}
    (hj : j.Sound) (hp : j.pending = [])
    (hconsequent : Ensures ctx (StmtRuns host ctx j consequent) (stmt ctx j consequent))
    (halternate : ∀ s ∈ alternate, Ensures ctx (StmtRuns host ctx j s) (stmt ctx j s)) :
    Ensures ctx (StmtRuns host ctx j (.conditional span test consequent alternate))
      (stmt ctx j (.conditional span test consequent alternate)) := by
  cases alternate with
  | none =>
    refine (ensures_expr host ctx test).bind fun t => hconsequent.bind fun c =>
      .pure fun given hc ht => .of_runs hj ?_
    rw [StatementCode.exec, ht.eval_test, Stmt.run]
    refine .bind ht.ignores_test fun b => ?_
    cases b with
    | false => exact .done trivial
    | true => exact hc.runs hp
  | some s =>
    refine (ensures_expr host ctx test).bind fun t => hconsequent.bind fun c =>
      (halternate s rfl).bind fun d => .pure fun given hd hc ht => .of_runs hj ?_
    rw [StatementCode.exec, ht.eval_test, Stmt.run]
    refine .bind ht.ignores_test fun b => ?_
    cases b with
    | false => exact hd.runs hp
    | true => exact hc.runs hp

theorem ensures_switch {discriminant : Expr} {clauses : List SwitchClause} (hj : j.Sound)
    (hclauses : ∀ slot, Ensures ctx (ClausesRun host ctx (j.enter .switch) slot clauses)
      (clauseList ctx (j.enter .switch) slot clauses)) :
    Ensures ctx (StmtRuns host ctx j (.switch span discriminant clauses))
      (stmt ctx j (.switch span discriminant clauses)) := by
  refine (ensures_expr host ctx discriminant).bind fun d => ensures_newSlot.bind fun slot =>
    (hclauses slot.index).bind fun cs => .pure fun given hcs hslot hd => .of_runs hj ?_
  rw [StatementCode.exec, hd.eval_boxed, Stmt.run]
  exact .bind hd.ignores_value fun v => hcs.enters hj hslot v

theorem ensures_throw (e : Expr) (hj : j.Sound) :
    Ensures ctx (StmtRuns host ctx j (.throw span e)) (stmt ctx j (.throw span e)) := by
  refine (ensures_expr host ctx e).bind fun c => .pure fun given hc => .of_runs hj ?_
  rw [StatementCode.exec, hc.eval_boxed, Stmt.run]
  exact .bind hc.ignores_value fun v => Exec.Relates.fail _ id

theorem ensures_tryCatch {b : Block} {handled : Option Handler} {finalizer : Option Block}
    (hj : j.Sound) (hblock : Ensures ctx (BlockRuns host ctx j b) (block ctx j b))
    (hhandler : ∀ h ∈ handled, ∀ body,
      Ensures ctx (HandlerRuns host ctx j body h) (handler ctx j body h))
    (hfinalizer : ∀ f ∈ finalizer, Ensures ctx (BlockRuns host ctx j f) (block ctx j f)) :
    Ensures ctx (StmtRuns host ctx j (.tryCatch span b handled finalizer))
      (stmt ctx j (.tryCatch span b handled finalizer)) := by
  rw [stmt_tryCatch]
  cases handled with
  | none =>
    cases finalizer with
    | none =>
      refine hblock.bind fun body => .pure fun given hbody => .of_runs hj ?_
      rw [Stmt.run]
      exact hbody
    | some f =>
      refine hblock.bind fun body => (hfinalizer f rfl).bind fun d => .pure fun given hd hbody =>
        .of_runs hj ?_
      rw [StatementCode.exec, Stmt.run]
      exact Runs.finalizing hbody hd
  | some h =>
    cases finalizer with
    | none =>
      refine hblock.bind fun body => (hhandler h rfl body).bind fun c => .pure fun given hc hbody =>
        .of_runs hj ?_
      rw [Stmt.run]
      exact hc _ hbody
    | some f =>
      refine hblock.bind fun body => (hhandler h rfl body).bind fun c =>
        (hfinalizer f rfl).bind fun d => .pure fun given hd hc hbody => .of_runs hj ?_
      rw [StatementCode.exec, Stmt.run]
      exact (hc _ hbody).finalizing hd

section Loops

variable {body : Stmt}

theorem ensures_while {test : Expr} (hj : j.Sound)
    (hbody : Ensures ctx (StmtRuns host ctx (j.enter .loop) body) (stmt ctx (j.enter .loop) body)) :
    Ensures ctx (StmtRuns host ctx j (.while span test body))
      (stmt ctx j (.while span test body)) := by
  refine (ensures_expr host ctx test).bind fun t => hbody.bind fun b => .pure fun given hb ht =>
    .of_runs hj ?_
  rw [Stmt.run]
  exact .loop hj ht.eval_test ht.ignores_test rfl (fun _ => RunState.ignores_pure _) (hb.runs rfl)

theorem ensures_doWhile {test : Expr} (hj : j.Sound)
    (hbody : Ensures ctx (StmtRuns host ctx (j.enter .loop) body) (stmt ctx (j.enter .loop) body)) :
    Ensures ctx (StmtRuns host ctx j (.doWhile span test body))
      (stmt ctx j (.doWhile span test body)) := by
  refine (ensures_expr host ctx test).bind fun t => hbody.bind fun b => .pure fun given hb ht =>
    .of_runs hj ?_
  rw [Stmt.run]
  exact .repeats hj ht.eval_test ht.ignores_test (hb.runs rfl)

theorem ensures_for {init : ForInit} {test update : Option Expr} (hj : j.Sound)
    (hbody : Ensures ctx (StmtRuns host ctx (j.enter .loop) body) (stmt ctx (j.enter .loop) body)) :
    Ensures ctx (StmtRuns host ctx j (.for span init test update body))
      (stmt ctx j (.for span init test update body)) := by
  rw [stmt_for]
  refine (ensures_forInit host ctx init).bind
    fun first => (ensures_forTest host ctx test).bind fun t =>
    (ensures_forUpdate host ctx update).bind fun u => hbody.bind fun b =>
      .pure fun given hb hu ht hfirst => .of_runs hj ?_
  rw [Stmt.run]
  exact hfirst.andThen (.loop hj ht.1 ht.2 hu.exec hu.ignores (hb.runs rfl))

theorem ensures_forIn {left : ForInTarget} {right : Expr} (hj : j.Sound)
    (hbody : Ensures ctx (StmtRuns host ctx (j.enter .loop) body) (stmt ctx (j.enter .loop) body)) :
    Ensures ctx (StmtRuns host ctx j (.forIn span left right body))
      (stmt ctx j (.forIn span left right body)) := by
  rw [stmt_forIn]
  refine (ensures_forInPlace host ctx left).bind fun place =>
    (ensures_expr host ctx right).bind fun o =>
    hbody.bind fun b => .pure fun given hb ho hplace => .of_runs hj ?_
  have hassign : (Evaluator.ofBody host ctx given).assign left =
      fun v => place.resolve host >>= fun p => p.write v := funext hplace.1
  rw [StatementCode.exec, ho.eval_boxed, Stmt.run, hassign]
  exact .bind ho.ignores_value fun v =>
    .keys hj v (fun v _ => RunState.ignores_assign (hplace.2.mono fun _ => Placed.shown) v)
      (hb.runs rfl)

end Loops

theorem ensures_with {id : NodeId} {object : Expr} {body : Stmt} (hj : j.Sound)
    (hp : j.pending = []) (hbody : Ensures ctx (StmtRuns host ctx j body) (stmt ctx j body)) :
    Ensures ctx (StmtRuns host ctx j (.with span id object body))
      (stmt ctx j (.with span id object body)) := by
  rw [stmt_with]
  refine (ensures_withEntry host ctx id object).bind fun c => hbody.bind fun b =>
    .pure fun given hb hc => .of_runs hj ?_
  rw [Stmt.run]
  exact hc.single.andThen (hb.runs hp)

end Kinds

mutual

/-- The code of statements runs as the statements. -/
theorem ensures_stmtList (host : Host) (ctx : BodyContext) :
    ∀ (ss : List Stmt) (j : Jumps), j.Sound →
    j.pending = [] → Ensures ctx (fun given cs => Runs given j ctx.isProgram (execList host cs)
      (runStmts (Evaluator.ofBody host ctx given) ss)) (stmtList ctx j ss)
  | [], j, _, _ => by
    rw [stmtList]
    exact .pure fun _ => .done trivial
  | s :: rest, j, hj, hp => by
    have hrest := ensures_stmtList host ctx rest j hj hp
    have hboth : Ensures ctx (fun given cs => Runs given j ctx.isProgram (execList host cs)
        (runStmts (Evaluator.ofBody host ctx given) (s :: rest))) (do
          let c ← stmt ctx j s
          let cs ← stmtList ctx j rest
          return c :: cs) := by
      refine (ensures_stmt host ctx s j hj fun _ => hp).bind fun c => hrest.bind fun cs =>
        .pure fun given hcs hc => ?_
      rw [execList, runStmts]
      exact (hc.runs hp).andThen hcs
    cases s with
    | function f =>
      rw [stmtList]
      refine hrest.mono fun given cs h => ?_
      rw [runStmts, Stmt.run]
      exact h
    | empty span =>
      rw [stmtList]
      refine hrest.mono fun given cs h => ?_
      rw [runStmts, Stmt.run]
      exact h
    | _ => simpa only [stmtList] using hboth

/-- The code of the clauses of a `switch` runs as the clauses. -/
theorem ensures_clauseList (host : Host) (ctx : BodyContext) :
    ∀ (cs : List SwitchClause) (j : Jumps),
    j.Sound → j.pending = [] → ∀ slot,
      Ensures ctx (ClausesRun host ctx j slot cs) (clauseList ctx j slot cs)
  | [], j, _, _, slot => by
    rw [clauseList]
    exact .pure fun given => ⟨fun _ v index => Exec.Relates.pure fun h => ⟨rfl, h⟩, rfl,
      fun _ => .done trivial⟩
  | .mk _ none body :: rest, j, hj, hp, slot => by
    rw [clauseList]
    refine (ensures_stmtList host ctx body j hj hp).bind fun b =>
      (ensures_clauseList host ctx rest j hj hp slot).bind fun cs => .pure fun given hcs hb => ?_
    refine ⟨fun hidden v index => ?_, ?_, fun start => ?_⟩
    · rw [findClause, matchingClause]
      exact hcs.find hidden v (index + 1)
    · rw [List.findIdx?_cons, List.findIdx?_cons]
      rfl
    · rw [execClauses, runClauses, StatementCode.exec]
      exact hcs.clause hb start
  | .mk _ (some test) body :: rest, j, hj, hp, slot => by
    rw [clauseList]
    refine (ensures_expr host ctx test).bind fun t =>
      (ensures_stmtList host ctx body j hj hp).bind fun b =>
      (ensures_clauseList host ctx rest j hj hp slot).bind fun cs => .pure fun given hcs hb ht => ?_
    refine ⟨fun hidden v index => ?_, ?_, fun start => ?_⟩
    · rw [findClause, matchingClause]
      exact hcs.tested hidden ht v index
    · rw [List.findIdx?_cons, List.findIdx?_cons, hcs.default]
      rfl
    · rw [execClauses, runClauses, StatementCode.exec]
      exact hcs.clause hb start

theorem ensures_block (host : Host) (ctx : BodyContext) : ∀ (b : Block) (j : Jumps), j.Sound →
    j.pending = [] → Ensures ctx (BlockRuns host ctx j b) (block ctx j b)
  | .mk _ body, j, hj, hp => by
    rw [block]
    refine (ensures_stmtList host ctx body j hj hp).bind fun cs => .pure fun given h => ?_
    rw [BlockRuns, Block.run, StatementCode.exec]
    exact h

theorem ensures_handler (host : Host) (ctx : BodyContext) : ∀ (h : Handler) (j : Jumps), j.Sound →
    j.pending = [] → ∀ body, Ensures ctx (HandlerRuns host ctx j body h) (handler ctx j body h)
  | .mk _ param b, j, hj, hp, body => by
    have hplace : Ensures ctx (fun given a => (∀ v, (Evaluator.ofBody host ctx given).assign
        (.declaration param) v = (a.resolve >>= fun p => p.write v)) ∧
          (Reference.name a).Within (Placed ctx given)) (identifier ctx param) := by
      refine (Ensures.of_steady (steady_identifier param)).mono fun given a h => ⟨fun v => ?_, h.2⟩
      have hcode : forInPlace ctx (.declaration param) given = .ok (.name a, given) := by
        rw [forInPlace, bind_of_ok h.1]
        rfl
      simp only [Evaluator.ofBody, hcode]
      rfl
    rw [handler]
    refine hplace.bind fun a => (ensures_block host ctx b j hj hp).bind fun c =>
      .pure fun given hc ha y hy => ?_
    rw [StatementCode.exec]
    refine hy.catching fun e => ?_
    rw [Handler.run]
    refine .bind (fun _ => RunState.ignores_lift _) fun v => ?_
    have hassign (held : Nat → Option Value) : RunState.Ignores given.Hidden held
        (a.resolve >>= fun p => p.write v) :=
      @RunState.ignores_assign _ held host (.name a) (ha.2.mono fun _ => Placed.shown) v
    rw [ha.1, ← bind_assoc]
    exact .bind hassign fun _ => hc

/-- The code of a statement runs as the statement. -/
theorem ensures_stmt (host : Host) (ctx : BodyContext) : ∀ (s : Stmt) (j : Jumps), j.Sound →
    (s.takesLabels = false → j.pending = []) → Ensures ctx (StmtRuns host ctx j s) (stmt ctx j s)
  | .expression _ e, _, hj, _ => ensures_expression e hj
  | .block b, j, hj, hp => by
    refine (ensures_block host ctx b j hj (hp rfl)).mono fun given c h => .of_runs hj ?_
    rw [Stmt.run]
    exact h
  | .empty _, _, hj, _ | .debugger _, _, hj, _ | .function _, _, hj, _ =>
    .pure fun _ => .of_runs hj (.done trivial)
  | .declaration _ ds, _, hj, _ => by
    refine (ensures_declaratorList host ctx ds).bind fun cs => .pure fun given h => .of_runs hj ?_
    rw [StatementCode.exec, h.exec, Stmt.run]
    exact .bind h.ignores fun _ => .done trivial
  | .ret _ argument, _, hj, _ => ensures_ret argument hj
  | .brk _ _, _, hj, _ | .cont _ _, _, hj, _ => by
    refine (ensures_jump _).bind fun t => .pure fun given ht => .of_runs hj ?_
    rw [StatementCode.exec, Stmt.run]
    exact .done ht
  | .labeled _ _ body, _, hj, _ =>
    ensures_labeled hj fun k hk hp => ensures_stmt host ctx body k hk hp
  | .conditional _ _ consequent none, j, hj, hp =>
    ensures_conditional hj (hp rfl) (ensures_stmt host ctx consequent j hj fun _ => hp rfl) nofun
  | .conditional _ _ consequent (some alternate), j, hj, hp => by
    refine ensures_conditional hj (hp rfl)
      (ensures_stmt host ctx consequent j hj fun _ => hp rfl) ?_
    rintro _ ⟨⟩
    exact ensures_stmt host ctx alternate j hj fun _ => hp rfl
  | .switch _ _ clauses, j, hj, _ =>
    ensures_switch hj fun slot =>
      ensures_clauseList host ctx clauses (j.enter .switch) (hj.enter _) rfl slot
  | .throw _ e, _, hj, _ => ensures_throw e hj
  | .tryCatch _ b none none, j, hj, hp =>
    ensures_tryCatch hj (ensures_block host ctx b j hj (hp rfl)) nofun nofun
  | .tryCatch _ b (some h) none, j, hj, hp => by
    refine ensures_tryCatch hj (ensures_block host ctx b j hj (hp rfl)) ?_ nofun
    rintro _ ⟨⟩
    exact ensures_handler host ctx h j hj (hp rfl)
  | .tryCatch _ b none (some f), j, hj, hp => by
    refine ensures_tryCatch hj (ensures_block host ctx b j hj (hp rfl)) nofun ?_
    rintro _ ⟨⟩
    exact ensures_block host ctx f j hj (hp rfl)
  | .tryCatch _ b (some h) (some f), j, hj, hp => by
    refine ensures_tryCatch hj (ensures_block host ctx b j hj (hp rfl)) ?_ ?_ <;> rintro _ ⟨⟩
    · exact ensures_handler host ctx h j hj (hp rfl)
    · exact ensures_block host ctx f j hj (hp rfl)
  | .while _ _ body, j, hj, _ =>
    ensures_while hj (ensures_stmt host ctx body (j.enter .loop) (hj.enter _) fun _ => rfl)
  | .doWhile _ _ body, j, hj, _ =>
    ensures_doWhile hj (ensures_stmt host ctx body (j.enter .loop) (hj.enter _) fun _ => rfl)
  | .for _ _ _ _ body, j, hj, _ =>
    ensures_for hj (ensures_stmt host ctx body (j.enter .loop) (hj.enter _) fun _ => rfl)
  | .forIn _ _ _ body, j, hj, _ =>
    ensures_forIn hj (ensures_stmt host ctx body (j.enter .loop) (hj.enter _) fun _ => rfl)
  | .with _ _ _ body, j, hj, hp =>
    ensures_with hj (hp rfl) (ensures_stmt host ctx body j hj fun _ => hp rfl)

end

end Compile

end ScriptEngine
