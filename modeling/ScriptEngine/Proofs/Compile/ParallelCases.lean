import ScriptEngine.Proofs.Compile.ParallelParts
import ScriptEngine.Proofs.Compile.TypedBodies

/-!
# Expressions and statements with and without types

An expression or a statement is compiled to codes that do the same, with types and without, if its
parts are. There is one lemma for every form in which more has to be seen than what the parts do.

## Main definitions

* `Compile.ExprAlike` : the two codes of an expression yield the same value.
* `Compile.StmtAlike` : a statement does the same with both codes of its expressions.
* `Compile.EntryAlike` : the two codes of the entry of a body do the same.

## Main statements

* `Compile.ExprAlike.assign`, `Compile.ExprAlike.combine` : assignments to names.
* `Compile.StmtAlike.for`, `Compile.StmtAlike.switch`, `Compile.StmtAlike.tryCatch` : statements.
-/

namespace ScriptEngine

namespace Compile

variable {host : Host} {ctx : BodyContext} {given given' : BodyState}
  {W : Set VariableId} {e : Expr} {c d : TypedCode}

/-! ### Expressions -/

/-- The two codes of an expression yield the same value, after which the variable of a plain
assignment was written. -/
def ExprAlike (host : Host) (ctx : BodyContext) (e : Expr) (given given' : BodyState)
    (c d : TypedCode) : Prop :=
  ∀ (top : Bool) (W : Set VariableId), AllSound ctx.analysis (e.typeSites ctx.analysis W) →
    Exec.SameTo (RunState.Parallel ctx given given' W)
      (RunState.Parallel ctx given given' (e.after ctx.analysis top W)) (c.value host)
        (d.value host)

theorem ExprAlike.alike (h : ExprAlike host ctx e given given' c d)
    (hsites : AllSound ctx.analysis (e.typeSites ctx.analysis W)) :
    c.Alike host (RunState.Parallel ctx given given' W) d :=
  (h false W hsites).same fun hst => hst.of_subset (e.subset_after false)

/-- After other expressions than plain assignments no more variables are known to be written. -/
theorem ExprAlike.of_alike (hafter : ∀ top W, e.after ctx.analysis top W = W)
    (h : ∀ W, AllSound ctx.analysis (e.typeSites ctx.analysis W) →
      c.Alike host (RunState.Parallel ctx given given' W) d) : ExprAlike host ctx e given
        given' c d := by
  intro top W hsites
  rw [hafter]
  exact h W hsites

/-- Both compilations of an expression. -/
abbrev ParallelExpr (host : Host) (ctx : BodyContext) (e : Expr) : Prop :=
  Parallel ctx (ExprAlike host ctx e) (expr ctx e) (expr ctx.untyped e)

/-- The two codes of an expression are the same later. -/
structure Coded (host : Host) (ctx : BodyContext) (e : Expr) (given given' : BodyState)
    (c d : TypedCode) :
    Prop where
  places : ctx.Places given given'
  code : expr ctx e given = .ok (c, given)
  code' : expr ctx.untyped e given' = .ok (d, given')
  alike : ExprAlike host ctx e given given' c d

theorem ParallelExpr.coded (h : ParallelExpr host ctx e) :
    Parallel ctx (Coded host ctx e) (expr ctx e) (expr ctx.untyped e) :=
  (h.steady (steady_expr e) (steady_expr e)).mono fun _ _ _ _ hp ⟨hcode, hcode', halike⟩ =>
    ⟨hp, hcode, hcode', halike⟩

theorem Coded.hasType (h : Coded host ctx e given given' c d)
    (hsites : AllSound ctx.analysis (e.typeSites ctx.analysis W)) :
    HasType c (e.type ctx.analysis) :=
  (hasType_expr W e hsites).at h.places.typed h.code

/-- A plain assignment to a name. -/
theorem ExprAlike.assign {i : Identifier} {a b : Access} {value : Expr} (span : Span)
    (hname : NameAlike ctx i given given' a b) (h : Coded host ctx value given given' c d) :
    ExprAlike host ctx (.assign span .plain (.identifier i) value) given given' (a.store c)
      (b.store d) := by
  intro top W hsites
  obtain ⟨hvalue, hwrite⟩ := allSound_append.mp hsites
  exact hname.store (allSound_cons.mp hwrite).1 top (h.hasType hvalue) (h.alike.alike hvalue)

/-- A compound assignment to a name: a slot is written as in a plain assignment. -/
theorem ExprAlike.combine (hcall : host.Agrees ctx.analysis) {i : Identifier} {a b : Access}
    {value : Expr} (span : Span) (op : BinaryOp) (hname : NameAlike ctx i given given' a b)
    (h : Coded host ctx value given given' c d) : ExprAlike host ctx
      (.assign span (.compound op) (.identifier i) value) given given'
      (if a.scopes.isEmpty then a.store (specializeBinary op (a.load false) c)
        else ⟨.boxed, .combine (.name a) op (c.inRep .boxed)⟩)
      (if b.scopes.isEmpty then b.store (specializeBinary op (b.load false) d)
        else ⟨.boxed, .combine (.name b) op (d.inRep .boxed)⟩) := by
  refine .of_alike (fun _ _ => rfl) fun W hsites => ?_
  obtain ⟨hread, hsites⟩ := allSound_cons.mp hsites
  obtain ⟨hvalue, hwrite⟩ := allSound_append.mp hsites
  have hwrite := (allSound_cons.mp hwrite).1
  have hnamed := hname.named hread.guarded
  have hboth := h.alike.alike hvalue
  have hload : (a.load false).Alike host (RunState.Parallel ctx given given' W) (b.load false) :=
    Access.alike_load (hname.reads hread) false
  rw [← hname.isEmpty_scopes]
  split
  · have hstore := hname.store hwrite false
      (hasType_binary op (hnamed.hasType_load false) (h.hasType hvalue))
      (.binary RunState.recoding_parallel hcall op hload hboth)
    rw [Analysis.written_false] at hstore
    exact hstore
  · next hscopes =>
    -- A name that objects are asked for is kept in no typed slot.
    have hbinding : ¬ a.binding.storage.IsTyped :=
      fun ht => hscopes (by rw [(hnamed.direct ht).1]; rfl)
    refine Reference.Finds.alike_combine RunState.recoding_parallel hcall op ?_ hboth.boxed
    exact (hname.finds hread.guarded).mono fun _ _ hpq =>
      ⟨hname.parallel.readAlike hname.places hpq (hnamed.mem_slotsOf hread),
        writtenAlike_of_not_isTyped hname.parallel hname.places hbinding hpq⟩

/-- The operands of a `,` operator. -/
theorem ExprAlike.sequence {span : Span} {es : List Expr} {cs ds : List TypedCode}
    (h : ∀ W, AllSound ctx.analysis (exprTypeSites ctx.analysis W es) →
      List.Forall₂ (TypedCode.Alike host (RunState.Parallel ctx given given' W)) cs ds) :
    ExprAlike host ctx (.sequence span es) given given'
      (match cs with
        | [] => .constant .undefined
        | first :: rest => sequenceCode first rest)
      (match ds with
        | [] => .constant .undefined
        | first :: rest => sequenceCode first rest) := by
  refine .of_alike (fun _ _ => rfl) fun W hsites => ?_
  have hall := h W hsites
  cases hall with
  | nil =>
    rw [TypedCode.Alike, TypedCode.value_constant]
    exact .pure _
  | cons hfirst hrest => exact .sequence hfirst hrest

/-- Code that does not depend on the body. -/
theorem parallel_constant {c : TypedCode} (hafter : ∀ top W, e.after ctx.analysis top W = W)
    (h : ∀ given given' W, c.Alike host (RunState.Parallel ctx given given' W) c) :
    Parallel ctx (ExprAlike host ctx e) (Pure.pure c : Compile TypedCode)
      (Pure.pure c : Compile TypedCode) :=
  .pure fun given given' _ => .of_alike hafter fun W _ => h given given' W

theorem alike_literal (l : Literal) :
    l.code.Alike host (RunState.Parallel ctx given given' W) l.code := by
  cases l with
  | regularExpression pattern flags =>
    exact Code.alike_regularExpression RunState.recoding_parallel Analysis.Counterparts.resembles
      pattern flags
  | _ =>
    unfold Literal.code
    rw [TypedCode.Alike, TypedCode.value_constant]
    exact .pure _

/-! ### Parts of statements -/

section

variable {α : Type} {W' : Set VariableId} {f : Evaluator → Act α}

/-- What is done with expressions is the same with both of their codes. -/
abbrev RunsAlike (host : Host) (ctx : BodyContext) (given given' : BodyState)
    (W W' : Set VariableId) (f : Evaluator → Act α) : Prop :=
  Exec.SameTo (RunState.Parallel ctx given given' W) (RunState.Parallel ctx given given' W')
    (f (Evaluator.ofBody host ctx given)) (f (Evaluator.ofBody host ctx.untyped given'))

/-- An expression has the same value with both codes. -/
def ValueAlike (host : Host) (ctx : BodyContext) (e : Expr) (given given' : BodyState) : Prop :=
  ∀ (top : Bool) (W : Set VariableId), AllSound ctx.analysis (e.typeSites ctx.analysis W) →
    RunsAlike host ctx given given' W (e.after ctx.analysis top W) (·.value e)

theorem Coded.value (h : Coded host ctx e given given' c d) :
    ValueAlike host ctx e given given' := by
  intro top W hsites
  have hboth := h.alike top W hsites
  simpa only [RunsAlike, Evaluator.ofBody, h.code, h.code'] using hboth

/-- Both compilations of an expression, and what its value is later. -/
theorem ParallelExpr.value (h : ParallelExpr host ctx e) :
    Parallel ctx (fun given given' _ _ => ValueAlike host ctx e given given') (expr ctx e)
      (expr ctx.untyped e) :=
  h.coded.mono fun _ _ _ _ _ h => h.value

namespace ValueAlike

variable (h : ValueAlike host ctx e given given')
  (hsites : AllSound ctx.analysis (e.typeSites ctx.analysis W))
include h hsites

theorem same : RunsAlike host ctx given given' W W (·.value e) :=
  (h false W hsites).same fun hst => hst.of_subset (e.subset_after false)

theorem test : RunsAlike host ctx given given' W W (·.test e) :=
  Exec.Same.bind (h.same hsites) fun v => .pure v.toBoolean

theorem effect (top : Bool) :
    RunsAlike host ctx given given' W (e.after ctx.analysis top W) (·.effect e) :=
  (h top W hsites).bind fun _ => Exec.Relates.mono (Exec.Same.pure ()) id
    (fun hst => hst.of_subset (e.subset_after top)) id

end ValueAlike

/-- A declaration. -/
def DeclaratorsAlike (host : Host) (ctx : BodyContext) (ds : List Declarator)
    (given given' : BodyState) : Prop :=
  ∀ (top : Bool) (W : Set VariableId),
    AllSound ctx.analysis (declaratorTypeSites ctx.analysis top W ds) →
    RunsAlike host ctx given given' W (declaratorsAfter ctx.analysis top W ds) (runDeclarators · ds)

/-- The first part of the head of a `for` loop. -/
def ForInitAlike (host : Host) (ctx : BodyContext) (init : ForInit)
    (given given' : BodyState) : Prop :=
  ∀ (top : Bool) (W : Set VariableId), AllSound ctx.analysis (init.typeSites ctx.analysis top W) →
    RunsAlike host ctx given given' W (init.after ctx.analysis top W) (init.run ·)

/-- An expression that may be left out. -/
def OptionAlike (host : Host) (ctx : BodyContext) (o : Option Expr)
    (given given' : BodyState) : Prop :=
  ∀ W : Set VariableId, AllSound ctx.analysis (optionTypeSites ctx.analysis W o) →
    RunsAlike host ctx given given' W W (·.optionalTest o) ∧
      RunsAlike host ctx given given' W W (·.optionalEffect o)

/-- What the keys of a `for`-`in` loop are assigned to. -/
def AssignAlike (host : Host) (ctx : BodyContext) (left : ForInTarget)
    (given given' : BodyState) : Prop :=
  ∀ W : Set VariableId, AllSound ctx.analysis (left.typeSites ctx.analysis W) →
    ∀ key, RunsAlike host ctx given given' W W (·.assign left (.string key))

/-- The head of a `with` statement. -/
def EnterAlike (host : Host) (ctx : BodyContext) (id : NodeId) (object : Expr)
    (given given' : BodyState) : Prop :=
  ∀ W : Set VariableId, (TypeSite.held id).Sound ctx.analysis →
    AllSound ctx.analysis (object.typeSites ctx.analysis W) →
      RunsAlike host ctx given given' W W (·.enter id object)

/-- One variable gets its value in a declaration, and the others after it. -/
theorem DeclaratorsAlike.cons {span : Span} {i : Identifier} {init : Expr} {rest : List Declarator}
    {a b : Access} (hname : NameAlike ctx i given given' a b)
    (hinit : Coded host ctx init given given' c d)
    (h : DeclaratorsAlike host ctx rest given given') :
    DeclaratorsAlike host ctx (.mk span i (some init) :: rest) given given' := by
  intro top W hsites
  obtain ⟨hvalue, hsites⟩ := allSound_append.mp hsites
  obtain ⟨hwrite, hrest⟩ := allSound_cons.mp hsites
  have hassign : Coded host ctx (.assign span .plain (.identifier i) init) given given' (a.store c)
      (b.store d) := by
    refine ⟨hname.places, ?_, ?_, .assign span hname hinit⟩
    · rw [expr, bind_of_ok hname.code, bind_of_ok hinit.code]
      rfl
    · rw [expr, bind_of_ok hname.code', bind_of_ok hinit.code']
      rfl
  have heffect := hassign.value.effect (W := W)
    (allSound_append.mpr ⟨hvalue, allSound_cons.mpr ⟨hwrite, allSound_nil⟩⟩) top
  refine Exec.SameTo.bind heffect fun _ => ?_
  exact Exec.Relates.mono (h top _ hrest) id
    (fun hst => hst.of_subset (ctx.analysis.subset_written top i)) id

theorem OptionAlike.nothing : OptionAlike host ctx none given given' :=
  fun _ _ => ⟨Exec.Same.pure true, Exec.Same.pure ()⟩

theorem ValueAlike.option (h : ValueAlike host ctx e given given') :
    OptionAlike host ctx (some e) given given' :=
  fun _ hsites => ⟨h.test hsites, Exec.Same.bind (h.same hsites) fun _ => .pure ()⟩

section

variable {o : Option Expr} (h : ∀ e, o = some e → ParallelExpr host ctx e)
include h

theorem parallel_forTest :
    Parallel ctx (fun given given' _ _ => OptionAlike host ctx o given given')
    (forTest ctx o) (forTest ctx.untyped o) := by
  cases o with
  | none => exact .pure fun _ _ _ => .nothing
  | some e => exact (h e rfl).value.bind fun _ _ => .pure fun _ _ _ he => he.option

theorem parallel_forUpdate :
    Parallel ctx (fun given given' _ _ => OptionAlike host ctx o given given')
    (forUpdate ctx o) (forUpdate ctx.untyped o) := by
  cases o with
  | none => exact .pure fun _ _ _ => .nothing
  | some e => exact (h e rfl).value.bind fun _ _ => .pure fun _ _ _ he => he.option

end

/-- A name that is assigned to by a loop or a `catch` clause. -/
theorem NameAlike.assign (host : Host) {i : Identifier} {a b : Access}
    (h : NameAlike ctx i given given' a b) (v : Value) :
    (Evaluator.ofBody host ctx given).assign (.declaration i) v =
        ((Reference.name a).resolve host >>= fun p => p.write v) ∧
      (Evaluator.ofBody host ctx.untyped given').assign (.declaration i) v =
        ((Reference.name b).resolve host >>= fun p => p.write v) := by
  have hcode : forInPlace ctx (.declaration i) given = .ok (.name a, given) := by
    rw [forInPlace, bind_of_ok h.code]
    rfl
  have hcode' : forInPlace ctx.untyped (.declaration i) given' = .ok (.name b, given') := by
    rw [forInPlace, bind_of_ok h.code']
    rfl
  simp only [Evaluator.ofBody, hcode, hcode', and_self]

/-- The place that a loop over keys assigns to. -/
theorem parallel_forInPlace_of {left : ForInTarget} (h : Parallel ctx (fun given given' r r' =>
      ∀ W : Set VariableId, AllSound ctx.analysis (left.typeSites ctx.analysis W) → r.Finds host
        (RunState.Parallel ctx given given' W)
          (Place.WrittenAlike (RunState.Parallel ctx given given' W)
          (RunState.Parallel ctx given given' W) (·.Fits .string)) r')
      (forInPlace ctx left) (forInPlace ctx.untyped left)) :
    Parallel ctx (fun given given' _ _ => AssignAlike host ctx left given given')
      (forInPlace ctx left) (forInPlace ctx.untyped left) := by
  refine (h.steady (steady_forInPlace left) (steady_forInPlace left)).mono ?_
  rintro given given' r r' - ⟨hcode, hcode', hfinds⟩ W hsites key
  simp only [RunsAlike, Evaluator.ofBody, hcode, hcode']
  exact (hfinds W hsites).assign ⟨key, rfl⟩

theorem parallel_withEntry (hcall : host.Agrees ctx.analysis) (id : NodeId) {object : Expr}
    (h : ParallelExpr host ctx object) :
    Parallel ctx (fun given given' _ _ => EnterAlike host ctx id object given given')
      (withEntry ctx id object) (withEntry ctx.untyped id object) := by
  have hboth : Parallel ctx (fun given given' c d => ∀ W : Set VariableId,
      (TypeSite.held id).Sound ctx.analysis →
      AllSound ctx.analysis (object.typeSites ctx.analysis W) →
        c.Alike host (RunState.Parallel ctx given given' W) d) (withEntry ctx id object)
      (withEntry ctx.untyped id object) := by
    unfold withEntry
    rw [show ctx.untyped.analysis.withVariable? id = ctx.analysis.withVariable? id from rfl]
    split
    · exact .throw _
    · next v hv =>
      refine ((parallel_access v).steady (steady_access v) (steady_access v)).bind fun a b =>
        h.bind fun c d =>
        .pure ?_
      rintro given given' hp hobject ⟨hcode, -, hab⟩ W hid hsites
      obtain ⟨hconcrete, hkind⟩ := hid v hv
      refine (alike_store_of_access hp hab hconcrete hkind hcode (.of_code ?_)).1
      rw [Code.Alike, Code.eval, Code.eval]
      exact (hobject.alike hsites).boxed.bind fun x =>
        RunState.recoding_parallel.same_run hcall (Run.regular_unaryForm .object x)
  refine (hboth.steady (steady_withEntry id object) (steady_withEntry id object)).mono ?_
  rintro given given' c d - ⟨hcode, hcode', hcd⟩ W hid hsites
  simp only [RunsAlike, Evaluator.ofBody, hcode, hcode']
  exact (hcd W hid hsites).bind fun _ => .pure ()

end

/-! ### Statements -/

/-- A statement does the same with both codes of its expressions. -/
def StmtAlike (host : Host) (ctx : BodyContext) (s : Stmt) (given given' : BodyState) : Prop :=
  ∀ (top : Bool) (W : Set VariableId) (labels : List String),
    AllSound ctx.analysis (s.typeSites ctx.analysis top W) →
      Proceeds (RunState.Parallel ctx given given' W)
        (RunState.Parallel ctx given given' (s.after ctx.analysis top W))
        (s.run (Evaluator.ofBody host ctx given) labels)
          (s.run (Evaluator.ofBody host ctx.untyped given') labels)

/-- Statements do the same, one after the other. -/
def StmtsAlike (host : Host) (ctx : BodyContext) (ss : List Stmt)
    (given given' : BodyState) : Prop :=
  ∀ (top : Bool) (W : Set VariableId), AllSound ctx.analysis (stmtTypeSites ctx.analysis top W ss) →
    Proceeds (RunState.Parallel ctx given given' W)
      (RunState.Parallel ctx given given' (stmtsAfter ctx.analysis top W ss))
      (runStmts (Evaluator.ofBody host ctx given) ss)
        (runStmts (Evaluator.ofBody host ctx.untyped given') ss)

/-- A block does the same. -/
def BlockAlike (host : Host) (ctx : BodyContext) (b : Block) (given given' : BodyState) : Prop :=
  ∀ W : Set VariableId, AllSound ctx.analysis (b.typeSites ctx.analysis W) →
    RunsAlike host ctx given given' W W (b.run ·)

/-- A `catch` clause does the same with every error. -/
def HandlerAlike (host : Host) (ctx : BodyContext) (h : Handler)
    (given given' : BodyState) : Prop :=
  ∀ W : Set VariableId, AllSound ctx.analysis (h.typeSites ctx.analysis W) →
    ∀ error, RunsAlike host ctx given given' W W (h.run · error)

/-- The same clause of a `switch` is found, and the clauses do the same from there on. -/
def ClausesAlike (host : Host) (ctx : BodyContext) (cs : List SwitchClause)
    (given given' : BodyState) : Prop :=
  ∀ W : Set VariableId, AllSound ctx.analysis (clauseTypeSites ctx.analysis W cs) →
    (∀ v index, RunsAlike host ctx given given' W W (matchingClause · v index cs)) ∧
      ∀ start, RunsAlike host ctx given given' W W (runClauses · start cs)

/-- Both compilations of a statement. -/
abbrev ParallelStmt (host : Host) (ctx : BodyContext) (j : Jumps) (s : Stmt) : Prop :=
  Parallel ctx (fun given given' _ _ => StmtAlike host ctx s given given') (stmt ctx j s)
    (stmt ctx.untyped j s)

section

variable {s : Stmt}

theorem StmtAlike.of_same (hafter : ∀ top W, s.after ctx.analysis top W = W)
    (h : ∀ top W labels, AllSound ctx.analysis (s.typeSites ctx.analysis top W) →
      RunsAlike host ctx given given' W W (s.run · labels)) : StmtAlike host ctx s given
        given' := by
  intro top W labels hsites
  rw [hafter]
  exact .of_same (h top W labels hsites)

/-- A statement inside of another one. -/
theorem StmtAlike.inner (h : StmtAlike host ctx s given given')
    (hsites : AllSound ctx.analysis (s.typeSites ctx.analysis false W)) (labels : List String) :
    RunsAlike host ctx given given' W W (s.run · labels) :=
  (h false W labels hsites).same

theorem StmtsAlike.inner {ss : List Stmt} (h : StmtsAlike host ctx ss given given')
    (hsites : AllSound ctx.analysis (stmtTypeSites ctx.analysis false W ss)) :
    RunsAlike host ctx given given' W W (runStmts · ss) :=
  (h false W hsites).same

theorem StmtsAlike.cons {ss : List Stmt} (h : StmtAlike host ctx s given given')
    (hss : StmtsAlike host ctx ss given given') : StmtsAlike host ctx (s :: ss) given given' := by
  intro top W hsites
  obtain ⟨hs, hrest⟩ := allSound_append.mp hsites
  rw [runStmts, runStmts]
  exact .andThen (fun hst => hst.of_subset (s.subset_after top)) (h top W [] hs) (hss top _ hrest)

theorem StmtAlike.expression {span : Span} (h : ValueAlike host ctx e given given') :
    StmtAlike host ctx (.expression span e) given given' := by
  intro top W labels hsites
  rw [Stmt.run, Stmt.run]
  refine .after (fun hst => hst.of_subset (e.subset_after top)) (h top W hsites) fun v => ?_
  refine Exec.Same.ite (c := ctx.isProgram = true) ?_ (.pure _)
  exact Exec.Same.bind (fun s t hst => .ok ⟨rfl, hst.complete v⟩) fun _ => .pure _

/-- A statement that does nothing but end. -/
theorem StmtAlike.done (hafter : ∀ top W, s.after ctx.analysis top W = W) (ended : LabelCompletion)
    (h : ∀ ev labels, s.run ev labels = pure ended) : StmtAlike host ctx s given given' := by
  refine .of_same hafter fun _ _ labels _ => ?_
  rw [RunsAlike, h, h]
  exact Exec.Same.pure ended

theorem StmtAlike.block {b : Block} (h : BlockAlike host ctx b given given') :
    StmtAlike host ctx (.block b) given given' :=
  .of_same (fun _ _ => rfl) fun _ W _ hsites => h W hsites

theorem StmtAlike.declaration {span : Span} {ds : List Declarator}
    (h : DeclaratorsAlike host ctx ds given given') :
    StmtAlike host ctx (.declaration span ds) given given' := by
  intro top W labels hsites
  rw [Stmt.run, Stmt.run]
  exact .after (fun hst => hst.of_subset (subset_declaratorsAfter top ds)) (h top W hsites)
    fun _ => .pure _

theorem StmtAlike.ret {span : Span} (h : ValueAlike host ctx e given given') :
    StmtAlike host ctx (.ret span (some e)) given given' :=
  .of_same (fun _ _ => rfl) fun _ _ _ hsites => Exec.Same.bind (h.same hsites) fun _ => .pure _

theorem StmtAlike.throw {span : Span} (h : ValueAlike host ctx e given given') :
    StmtAlike host ctx (.throw span e) given given' :=
  .of_same (fun _ _ => rfl) fun _ _ _ hsites => Exec.Same.bind (h.same hsites) fun v =>
    .fail (.thrown v)

theorem StmtAlike.labeled {span : Span} {label : String} (h : StmtAlike host ctx s given given') :
    StmtAlike host ctx (.labeled span label s) given given' :=
  .of_same (fun _ _ => rfl) fun _ _ _ hsites =>
    Exec.Same.bind (h.inner hsites _) fun ended => .pure (ended.leaving [label])

theorem StmtAlike.conditional {span : Span} (h : ValueAlike host ctx e given given')
    (hs : StmtAlike host ctx s given given') :
    StmtAlike host ctx (.conditional span e s none) given given' := by
  refine .of_same (fun _ _ => rfl) fun _ _ _ hsites => ?_
  obtain ⟨htest, hconsequent⟩ := allSound_append.mp hsites
  rw [RunsAlike, Stmt.run, Stmt.run]
  exact Exec.Same.bind (h.test htest) fun b => .ite (hs.inner hconsequent []) (.pure _)

theorem StmtAlike.either {span : Span} {s' : Stmt} (h : ValueAlike host ctx e given given')
    (hs : StmtAlike host ctx s given given') (hs' : StmtAlike host ctx s' given given') :
    StmtAlike host ctx (.conditional span e s (some s')) given given' := by
  refine .of_same (fun _ _ => rfl) fun _ _ _ hsites => ?_
  obtain ⟨htest, hsites⟩ := allSound_append.mp hsites
  obtain ⟨hconsequent, halternate⟩ := allSound_append.mp hsites
  rw [RunsAlike, Stmt.run, Stmt.run]
  exact Exec.Same.bind (h.test htest) fun b =>
    .ite (hs.inner hconsequent []) (hs'.inner halternate [])

theorem StmtAlike.while {span : Span} (h : ValueAlike host ctx e given given')
    (hs : StmtAlike host ctx s given given') :
    StmtAlike host ctx (.while span e s) given given' := by
  refine .of_same (fun _ _ => rfl) fun _ _ labels hsites => ?_
  obtain ⟨htest, hbody⟩ := allSound_append.mp hsites
  rw [RunsAlike, Stmt.run, Stmt.run]
  exact Exec.Same.loopWhile (h.test htest) (.pure ()) (hs.inner hbody []) labels host.rounds

theorem StmtAlike.doWhile {span : Span} (h : ValueAlike host ctx e given given')
    (hs : StmtAlike host ctx s given given') :
    StmtAlike host ctx (.doWhile span e s) given given' := by
  refine .of_same (fun _ _ => rfl) fun _ _ labels hsites => ?_
  obtain ⟨hbody, htest⟩ := allSound_append.mp hsites
  rw [RunsAlike, Stmt.run, Stmt.run]
  exact Exec.Same.repeatWhile (h.test htest) (hs.inner hbody []) labels host.rounds

theorem StmtAlike.with {span : Span} {id : NodeId} (h : EnterAlike host ctx id e given given')
    (hs : StmtAlike host ctx s given given') :
    StmtAlike host ctx (.with span id e s) given given' := by
  refine .of_same (fun _ _ => rfl) fun _ W _ hsites => ?_
  obtain ⟨hid, hsites⟩ := allSound_cons.mp hsites
  obtain ⟨hobject, hbody⟩ := allSound_append.mp hsites
  rw [RunsAlike, Stmt.run, Stmt.run]
  exact Exec.Same.bind (h W hid hobject) fun _ => hs.inner hbody []

theorem ClausesAlike.nil : ClausesAlike host ctx [] given given' :=
  fun _ _ => ⟨fun _ _ => by rw [RunsAlike, matchingClause, matchingClause]; exact Exec.Same.pure _,
    fun _ => by rw [RunsAlike, runClauses, runClauses]; exact Exec.Same.pure _⟩

theorem ClausesAlike.cons {span : Span} {test : Option Expr} {body : List Stmt}
    {rest : List SwitchClause} (htest : ∀ e, test = some e → ValueAlike host ctx e given given')
    (hbody : StmtsAlike host ctx body given given') (h : ClausesAlike host ctx rest given given') :
    ClausesAlike host ctx (.mk span test body :: rest) given given' := by
  intro W hsites
  obtain ⟨htestSites, hsites⟩ := allSound_append.mp hsites
  obtain ⟨hbodySites, hrestSites⟩ := allSound_append.mp hsites
  obtain ⟨hfind, hrun⟩ := h W hrestSites
  refine ⟨fun v index => ?_, fun start => ?_⟩
  · cases test with
    | none => exact hfind v (index + 1)
    | some e =>
      exact Exec.Same.bind ((htest e rfl).same htestSites) fun x =>
        .ite (.pure _) (hfind v (index + 1))
  · rw [RunsAlike, runClauses, runClauses]
    exact Exec.Same.ite (Exec.Same.andThen (hbody.inner hbodySites) (hrun 0)) (hrun (start - 1))

theorem StmtAlike.switch {span : Span} {cs : List SwitchClause}
    (h : ValueAlike host ctx e given given') (hcs : ClausesAlike host ctx cs given given') :
    StmtAlike host ctx (.switch span e cs) given given' := by
  refine .of_same (fun _ _ => rfl) fun top W labels hsites => ?_
  obtain ⟨hvalue, hclauses⟩ := allSound_append.mp hsites
  obtain ⟨hfind, hrun⟩ := hcs W hclauses
  rw [RunsAlike, Stmt.run, Stmt.run]
  refine Exec.Same.bind (h.same hvalue) fun v => Exec.Same.bind (hfind v 0) fun matching => ?_
  split
  · exact Exec.Same.bind (hrun _) fun ended => .pure _
  · exact .pure _

theorem StmtAlike.for {span : Span} {init : ForInit} {test update : Option Expr} {body : Stmt}
    (hinit : ForInitAlike host ctx init given given')
    (htest : OptionAlike host ctx test given given')
    (hupdate : OptionAlike host ctx update given given')
    (hbody : StmtAlike host ctx body given given') :
    StmtAlike host ctx (.for span init test update body) given given' := by
  intro top W labels hsites
  obtain ⟨hinitSites, hsites⟩ := allSound_append.mp hsites
  obtain ⟨htestSites, hsites⟩ := allSound_append.mp hsites
  obtain ⟨hbodySites, hupdateSites⟩ := allSound_append.mp hsites
  rw [Stmt.run, Stmt.run]
  refine .after (fun hst => hst.of_subset (init.subset_after top))
    (hinit top W hinitSites) fun _ => ?_
  exact Exec.Same.loopWhile (htest _ htestSites).1 (hupdate _ hupdateSites).2
    (hbody.inner hbodySites []) labels host.rounds

theorem StmtAlike.forIn {span : Span} {left : ForInTarget} {right : Expr} {body : Stmt}
    (hleft : AssignAlike host ctx left given given')
    (hright : ValueAlike host ctx right given given')
    (hbody : StmtAlike host ctx body given given') :
    StmtAlike host ctx (.forIn span left right body) given given' := by
  refine .of_same (fun _ _ => rfl) fun top W labels hsites => ?_
  obtain ⟨hrightSites, hsites⟩ := allSound_append.mp hsites
  obtain ⟨hleftSites, hbodySites⟩ := allSound_append.mp hsites
  rw [RunsAlike, Stmt.run, Stmt.run]
  refine Exec.Same.bind (hright.same hrightSites) fun v => ?_
  exact .forEachKey RunState.recoding_parallel Analysis.Counterparts.resembles (hleft W hleftSites)
    (hbody.inner hbodySites []) v labels

theorem HandlerAlike.mk {span : Span} {param : Identifier} {b : Block} {a a' : Access}
    (hname : NameAlike ctx param given given' a a') (hb : BlockAlike host ctx b given given') :
    HandlerAlike host ctx (.mk span param b) given given' := by
  intro W hsites error
  obtain ⟨hparam, hbody⟩ := allSound_cons.mp hsites
  rw [RunsAlike, Handler.run, Handler.run]
  refine Exec.Same.bind (RunState.recoding_parallel.same_lift Analysis.Counterparts.resembles
    (MachineRelation.same_errorValue error)) fun v => ?_
  obtain ⟨hassign, hassign'⟩ := hname.assign host v
  rw [hassign, hassign']
  exact Exec.Same.bind ((hname.receives hparam).assign trivial) fun _ => hb W hbody

theorem StmtAlike.tryCatch {span : Span} {b : Block} {h : Option Handler} {f : Option Block}
    (hb : BlockAlike host ctx b given given')
    (hh : ∀ h', h = some h' → HandlerAlike host ctx h' given given')
    (hf : ∀ f', f = some f' → BlockAlike host ctx f' given given') :
    StmtAlike host ctx (.tryCatch span b h f) given given' := by
  refine .of_same (fun _ _ => rfl) fun top W labels hsites => ?_
  cases h with
  | none =>
    cases f with
    | none => exact hb W (allSound_append.mp hsites).1
    | some f =>
      obtain ⟨hbSites, hfSites⟩ := allSound_append.mp hsites
      exact Exec.Same.finallyRunning (hb W hbSites) (hf f rfl W hfSites)
  | some h =>
    have hcaught (hbSites : AllSound ctx.analysis (b.typeSites ctx.analysis W))
        (hhSites : AllSound ctx.analysis (h.typeSites ctx.analysis W)) :=
      Exec.Same.catchingError (hb W hbSites) (hh h rfl W hhSites)
    cases f with
    | none =>
      obtain ⟨hbSites, hsites⟩ := allSound_append.mp hsites
      exact hcaught hbSites (allSound_append.mp hsites).1
    | some f =>
      obtain ⟨hbSites, hsites⟩ := allSound_append.mp hsites
      obtain ⟨hhSites, hfSites⟩ := allSound_append.mp hsites
      exact Exec.Same.finallyRunning (hcaught hbSites hhSites) (hf f rfl W hfSites)

end

/-! ### Entries -/

/-- Two statements end in the same way, and leave states related as before. -/
abbrev StatementAlike (host : Host) (ctx : BodyContext) (given given' : BodyState)
    (c d : StatementCode) : Prop :=
  Exec.Same (RunState.Parallel ctx given given' ∅) (c.exec host) (d.exec host)

theorem StatementAlike.effect (h : c.Alike host (RunState.Parallel ctx given given' ∅) d) :
    StatementAlike host ctx given given' c.effect d.effect := by
  rw [StatementAlike, eval_effect, eval_effect]
  exact h.bind fun _ => .pure _

/-- The codes of entries that do the same. -/
abbrev EntryAlike (host : Host) (ctx : BodyContext) (given given' : BodyState)
    (cs ds : List StatementCode) : Prop :=
  List.Forall₂ (StatementAlike host ctx given given') cs ds

theorem EntryAlike.append {cs ds cs' ds' : List StatementCode}
    (h : EntryAlike host ctx given given' cs ds) (h' : EntryAlike host ctx given given' cs' ds') :
    EntryAlike host ctx given given' (cs ++ cs') (ds ++ ds') :=
  List.rel_append h h'

theorem EntryAlike.same {cs ds : List StatementCode} (h : EntryAlike host ctx given given' cs ds) :
    Exec.Same (RunState.Parallel ctx given given' ∅) (execList host cs) (execList host ds) := by
  induction h with
  | nil => exact .pure _
  | cons hc _ ih =>
    rw [execList, execList]
    refine hc.bind fun ended => ?_
    cases ended with
    | normal => exact ih
    | _ => exact .pure _

/-- The code that makes the functions declared in statements with some sites. -/
def HoistAlike (host : Host) (ctx : BodyContext) (sites : Bool → Set VariableId → List TypeSite)
    (given given' : BodyState) (cs ds : List StatementCode) : Prop :=
  ∀ top W, AllSound ctx.analysis (sites top W) → EntryAlike host ctx given given' cs ds

theorem parallel_selfEntry :
    Parallel ctx (fun given given' cs ds => ctx.analysis.ReceivesOnCall ctx.id →
    EntryAlike host ctx given given' cs ds) (selfEntry ctx) (selfEntry ctx.untyped) := by
  unfold selfEntry
  rw [show (ctx.untyped.analysis.body ctx.untyped.id).selfBinding =
    (ctx.analysis.body ctx.id).selfBinding from rfl]
  split
  · next v hv =>
    refine ((parallel_access v).steady (steady_access v) (steady_access v)).bind fun a b => .pure ?_
    rintro given given' hp ⟨hcode, -, hab⟩ hcalled
    obtain ⟨hconcrete, hkind⟩ := hcalled.selfBinding v hv
    have hcallee : TypedCode.Alike host (RunState.Parallel ctx given given' ∅)
        ⟨.boxed, .callee⟩ ⟨.boxed, .callee⟩ :=
      RunState.recoding_parallel.alike_frame (·.callee) (by rw [Code.eval]) fun _ => rfl
    exact .cons (.effect (alike_store_of_access hp hab hconcrete (hkind ▸ nofun) hcode hcallee).2)
      .nil
  · exact .pure fun _ _ _ _ => .nil

theorem parallel_declaredFunction (host : Host) (name : Identifier) (f g : FunctionCode) :
    Parallel ctx (fun given given' c d => ctx.analysis.Receives name →
      ctx.analysis.Counterparts f g →
      StatementAlike host ctx given given' c d) (declaredFunction ctx name f)
      (declaredFunction ctx.untyped name g) :=
  (parallel_name name).bind fun _ _ => .pure fun _ _ _ hname hreceives hfg =>
    .effect (hname.declares hreceives
      (Code.alike_function RunState.recoding_parallel Analysis.Counterparts.resembles hfg))

end Compile

end ScriptEngine
