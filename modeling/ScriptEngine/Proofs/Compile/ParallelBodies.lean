import ScriptEngine.Proofs.Compile.ParallelCases

/-!
# Bodies with and without types

The bodies of a script are compiled to codes that do the same, with types and without, as long as
the types can be relied upon.  Neither compilation fails unless the other one does, with the same
error.

## Main definitions

* `Compile.BodyAlike` : the statements of a body do the same with both codes, and so do those of its
  entry.

## Main statements

* `Compile.parallel_expr`, `Compile.parallel_stmt` : both compilations of expressions and
  statements.
* `Compile.parallel_functionParts`, `Compile.parallel_scriptParts` : those of whole bodies.
-/

namespace ScriptEngine

namespace Compile

variable {ctx : BodyContext}

/-- Both compilations of a whole body. -/
theorem Parallel.of_initial {α β : Type} {R : BodyState → BodyState → α → β → Prop} {x : Compile α}
    {y : Compile β} (h : Parallel ctx R x y) :
    (∃ e, x .initial = .error e ∧ y .initial = .error e) ∨
    ∃ a given b given', x .initial = .ok (a, given) ∧ y .initial = .ok (b, given') ∧
      ctx.Places given given' ∧
      R given given' a b := by
  rcases h (s := .initial) (t := .initial) ⟨rfl, fun _ => rfl⟩ with herror | ⟨a, s, b, t, hx, hy,
      hs, ht, hst, hR⟩
  · exact .inl herror
  · have hp : ctx.Places s t := ⟨hst, hs.sound sound_initial, ht.sound sound_initial⟩
    exact .inr ⟨a, s, b, t, hx, hy, hp, hR (.refl s) (.refl t) hp⟩

/-- Both compilations of a function fail with the same error, or neither does. -/
def ParallelFunc (a : Analysis) (f : Func) : Prop :=
  (∃ e, func a f = .error e ∧ func a.untyped f = .error e) ∨
    ∃ c d, func a f = .ok c ∧ func a.untyped f = .ok d

/-- The statements of a body do the same with both codes of their expressions, and the two codes of
its entry do the same. -/
structure BodyAlike (host : Host) (ctx : BodyContext) (body : List Stmt) (given given' : BodyState)
    (r r' : List StatementCode × List StatementCode) : Prop where
  statements : StmtsAlike host ctx body given given'
  entry : AllSound ctx.analysis (stmtTypeSites ctx.analysis true ∅ body) →
    (ctx.isProgram = false → ctx.analysis.ReceivesOnCall ctx.id) →
      EntryAlike host ctx given given' r.2 r'.2

section

variable {host : Host} {body : List Stmt}
  (hbody : ∀ j, Parallel ctx (fun given given' _ _ => StmtsAlike host ctx body given given')
    (stmtList ctx j body) (stmtList ctx.untyped j body))
  (hhoist : Parallel ctx (HoistAlike host ctx (stmtTypeSites ctx.analysis · · body))
    (hoistList ctx body) (hoistList ctx.untyped body))
include hbody hhoist

theorem parallel_functionParts (hprogram : ctx.isProgram = false) :
    Parallel ctx (BodyAlike host ctx body) (functionParts ctx body)
      (functionParts ctx.untyped body) :=
  (hbody .none).bind fun _ _ => parallel_selfEntry.bind fun _ _ => hhoist.bind fun _ _ =>
    .pure fun _ _ _ hdeclared hself hstatements =>
      ⟨hstatements, fun hsites hcalled =>
        (hself (hcalled hprogram)).append (hdeclared true ∅ hsites)⟩

theorem parallel_scriptParts :
    Parallel ctx (BodyAlike host ctx body) (scriptParts ctx body) (scriptParts ctx.untyped body) :=
  (hbody .none).bind fun _ _ => hhoist.bind fun _ _ =>
    .pure fun _ _ _ hdeclared hstatements => ⟨hstatements, fun hsites _ => hdeclared true ∅ hsites⟩

end

section

variable {a : Analysis} {f : Func} {given : BodyState}

theorem func_of_error {e : StaticError}
    (h : functionParts (.ofBody a f.id false) f.body .initial = .error e) :
    func a f = .error e := by
  cases f
  dsimp only [Func.id, Func.body] at h
  change ((functionParts _ _) _ >>= _) = _
  rw [h]
  rfl

theorem func_of_parts {r : List StatementCode × List StatementCode}
    (h : functionParts (.ofBody a f.id false) f.body .initial = .ok (r, given)) :
    func a f = .ok (.mk (bodyInfo (.ofBody a f.id false) f.name f.params.length [] given)
      (.block r.2) (.block r.1)) := by
  cases f
  dsimp only [Func.id, Func.body] at h
  change ((functionParts _ _) _ >>= _) = _
  rw [h]
  rfl

end

/-- Code that makes functions, after other code of this kind. -/
theorem parallel_both {host : Host} {sites sites' sites'' : Bool → Set VariableId → List TypeSite}
    {x y x' y' : Compile (List StatementCode)} (h : Parallel ctx (HoistAlike host ctx sites) x y)
    (h' : Parallel ctx (HoistAlike host ctx sites') x' y')
    (hsites : ∀ top W, AllSound ctx.analysis (sites'' top W) →
      ∃ top₁ top₂ W', AllSound ctx.analysis (sites top₁ W) ∧
        AllSound ctx.analysis (sites' top₂ W')) :
    Parallel ctx (HoistAlike host ctx sites'') (do
      let cs ← x
      return cs ++ (← x')) (do
      let cs ← y
      return cs ++ (← y')) :=
  h.bind fun _ _ => h'.bind fun _ _ => .pure fun _ _ _ hds hcs top W hall => by
    obtain ⟨top₁, top₂, W', hfirst, hsecond⟩ := hsites top W hall
    exact (hcs top₁ W hfirst).append (hds top₂ W' hsecond)

/-- The code that makes the functions declared in the parts of a `try` statement. -/
theorem parallel_three {host : Host} {sites₁ sites₂ sites₃ : Set VariableId → List TypeSite}
    {x y z x' y' z' : Compile (List StatementCode)}
    (hx : Parallel ctx (HoistAlike host ctx fun _ => sites₁) x x')
    (hy : Parallel ctx (HoistAlike host ctx fun _ => sites₂) y y')
    (hz : Parallel ctx (HoistAlike host ctx fun _ => sites₃) z z') :
    Parallel ctx (HoistAlike host ctx fun _ W => sites₁ W ++ (sites₂ W ++ sites₃ W)) (do
      let first ← x
      let second ← y
      let third ← z
      return first ++ second ++ third) (do
      let first ← x'
      let second ← y'
      let third ← z'
      return first ++ second ++ third) :=
  hx.bind fun _ _ => hy.bind fun _ _ => hz.bind fun _ _ => .pure fun _ _ _ hz hy hx top W hall => by
    obtain ⟨hfirst, hall⟩ := allSound_append.mp hall
    obtain ⟨hsecond, hthird⟩ := allSound_append.mp hall
    exact ((hx top W hfirst).append (hy top W hsecond)).append (hz top W hthird)

theorem parallel_nothing {host : Host} {sites : Bool → Set VariableId → List TypeSite} :
    Parallel ctx (HoistAlike host ctx sites) (pure [] : Compile (List StatementCode))
      (pure [] : Compile (List StatementCode)) :=
  .pure fun _ _ _ _ _ _ => .nil

/-- A choice between results that can be made afterwards. -/
theorem parallel_ite {R : BodyState → BodyState → TypedCode → TypedCode → Prop} {p q : Bool}
    {c c' d d' : TypedCode}
    (h : ∀ given given', ctx.Places given given' →
      R given given' (if p then c else c') (if q then d else d')) :
    Parallel ctx R (if p then pure c else pure c') (if q then pure d else pure d') := by
  rw [← apply_ite pure, ← apply_ite pure]
  exact .pure h

theorem Parallel.ite {α β : Type} {R : BodyState → BodyState → α → β → Prop} {p : Prop}
    [Decidable p] {x x' : Compile α} {y y' : Compile β} (h : Parallel ctx R x y)
    (h' : Parallel ctx R x' y') :
    Parallel ctx R (if p then x else x') (if p then y else y') := by
  split
  · exact h
  · exact h'

theorem parallel_jumpTo {s : Stmt} {host : Host} {f : TargetId → StatementCode}
    (target : Except StaticError TargetId)
    (h : ∀ given given', StmtAlike host ctx s given given') :
    Parallel ctx (fun given given' _ _ => StmtAlike host ctx s given given')
      (do return f (← jump target)) (do return f (← jump target)) :=
  (parallel_jump target).bind fun _ _ => .pure fun given given' _ _ => h given given'

/-- Both compilations of a property reference find the same property. -/
abbrev ParallelMember (host : Host) (ctx : BodyContext) (m : Member) : Prop :=
  Parallel ctx (fun given given' r r' => ∀ W, AllSound ctx.analysis (m.typeSites ctx.analysis W) →
    r.Finds host (RunState.Parallel ctx given given' W) Place.SameProperty r')
    (member ctx m) (member ctx.untyped m)

section Kinds

variable {host : Host} {span : Span} (hcall : host.Agrees ctx.analysis)
include hcall

theorem parallel_unary {op : UnaryOp} {argument : Expr} (hargument : ParallelExpr host ctx argument)
    (hmember : match argument with
      | .member m => ParallelMember host ctx m
      | _ => True) :
    ParallelExpr host ctx (.unary span op argument) := by
  have hplain : Parallel ctx (ExprAlike host ctx (.unary span op argument))
      (do return specializeUnary op (← expr ctx argument))
      (do return specializeUnary op (← expr ctx.untyped argument)) :=
    hargument.bind fun _ _ => .pure fun _ _ _ hc =>
      .of_alike (fun _ _ => rfl) fun W h => .unary RunState.recoding_parallel hcall op (hc.alike h)
  cases op with
  | delete =>
    cases argument with
    | identifier i =>
      exact (parallel_name i).bind fun _ _ => .pure fun _ _ _ hname =>
        .of_alike (fun _ _ => rfl) fun W h =>
          (hname.deletes (allSound_cons.mp h).1.guarded).alike_delete
    | member m =>
      exact Parallel.bind hmember fun _ _ => .pure fun _ _ _ hr =>
        .of_alike (fun _ _ => rfl) fun W h => ((hr W h).mono fun _ _ hpq =>
          hpq.same_delete RunState.recoding_parallel Analysis.Counterparts.resembles).alike_delete
    | _ => exact hplain
  | typeOf =>
    cases argument with
    | identifier i =>
      exact (parallel_name i).bind fun _ _ => .pure fun _ _ _ hname =>
        .of_alike (fun _ _ => rfl) fun W h => .unary RunState.recoding_parallel hcall .typeOf
          (Access.alike_load (hname.reads (allSound_cons.mp h).1) true)
    | _ => exact hplain
  | _ => exact hplain

theorem parallel_assign_name {op : AssignOp} {i : Identifier} {value : Expr}
    (hvalue : ParallelExpr host ctx value) :
    ParallelExpr host ctx (.assign span op (.identifier i) value) := by
  cases op with
  | plain =>
    exact (parallel_name i).bind fun _ _ => hvalue.coded.bind fun _ _ =>
      .pure fun _ _ _ hc hname => .assign span hname hc
  | compound op =>
    exact (parallel_name i).bind fun _ _ => hvalue.coded.bind fun _ _ =>
      parallel_ite fun _ _ _ hc hname => .combine hcall span op hname hc

theorem parallel_assign_member {op : AssignOp} {m : Member} {value : Expr}
    (hmember : ParallelMember host ctx m) (hvalue : ParallelExpr host ctx value) :
    ParallelExpr host ctx (.assign span op (.member m) value) := by
  cases op with
  | plain =>
    exact Parallel.bind hmember fun _ _ => hvalue.bind fun _ _ => .pure fun _ _ _ hc hr =>
      .of_alike (fun _ _ => rfl) fun W h =>
        Reference.Finds.alike_store ((hr W (allSound_append.mp h).1).mono fun _ _ hpq =>
          hpq.writtenAlike RunState.recoding_parallel Analysis.Counterparts.resembles _)
          (hc.alike (allSound_append.mp h).2).boxed
  | compound op =>
    exact hvalue.bind fun _ _ => Parallel.bind hmember fun _ _ => .pure fun _ _ _ hr hc =>
      .of_alike (fun _ _ => rfl) fun W h =>
        Reference.Finds.alike_combine RunState.recoding_parallel hcall op
          ((hr W (allSound_append.mp h).1).mono fun _ _ hpq =>
            ⟨hpq.readAlike RunState.recoding_parallel Analysis.Counterparts.resembles,
              hpq.writtenAlike RunState.recoding_parallel Analysis.Counterparts.resembles _⟩)
          (hc.alike (allSound_append.mp h).2).boxed

theorem parallel_call {callee : Expr} {arguments : List Expr}
    (hcallee : ParallelExpr host ctx callee) (hmember : match callee with
      | .member m => ParallelMember host ctx m
      | _ => True)
    (harguments : Parallel ctx (fun given given' cs ds => ∀ W,
      AllSound ctx.analysis (exprTypeSites ctx.analysis W arguments) →
        List.Forall₂ (Code.Alike host (RunState.Parallel ctx given given' W)) cs ds)
      (exprList ctx arguments) (exprList ctx.untyped arguments)) :
    ParallelExpr host ctx (.call span callee arguments) := by
  have hplain : Parallel ctx (ExprAlike host ctx (.call span callee arguments)) (do
        let f ← expr ctx callee
        return ⟨.boxed, .call (f.inRep .boxed) (← exprList ctx arguments)⟩) (do
        let f ← expr ctx.untyped callee
        return ⟨.boxed, .call (f.inRep .boxed) (← exprList ctx.untyped arguments)⟩) :=
    hcallee.bind fun _ _ => harguments.bind fun _ _ => .pure fun _ _ _ hcs hf =>
      .of_alike (fun _ _ => rfl) fun W h => Code.alike_call RunState.recoding_parallel hcall
        (hf.alike (allSound_append.mp h).1).boxed (hcs W (allSound_append.mp h).2)
  cases callee with
  | member m =>
    exact Parallel.bind hmember fun _ _ => harguments.bind fun _ _ => .pure fun _ _ _ hcs hr =>
      .of_alike (fun _ _ => rfl) fun W h =>
        Reference.Finds.alike_call RunState.recoding_parallel hcall
          ((hr W (allSound_append.mp h).1).mono fun _ _ hpq =>
            hpq.readAlike RunState.recoding_parallel Analysis.Counterparts.resembles)
          (hcs W (allSound_append.mp h).2)
  | identifier i =>
    exact (parallel_name i).bind fun _ _ => harguments.bind fun _ _ => .pure fun _ _ _ hcs hname =>
      .of_alike (fun _ _ => rfl) fun W h =>
        Reference.Finds.alike_call RunState.recoding_parallel hcall
          (hname.reads (allSound_cons.mp (allSound_append.mp h).1).1)
            (hcs W (allSound_append.mp h).2)
  | _ => exact hplain

end Kinds

mutual

/-- Both compilations of an expression. -/
theorem parallel_expr (host : Host) (ctx : BodyContext) (hcall : host.Agrees ctx.analysis) :
    ∀ e : Expr, ParallelExpr host ctx e
  | .literal _ value => parallel_constant (fun _ _ => rfl) fun _ _ _ => alike_literal value
  | .this _ => parallel_constant (fun _ _ => rfl) fun _ _ _ =>
      RunState.recoding_parallel.alike_frame (·.this) (by rw [Code.eval]) fun _ => rfl
  | .identifier i =>
    (parallel_name i).bind fun _ _ => .pure fun _ _ _ hname => .of_alike (fun _ _ => rfl) fun W h =>
      Access.alike_load (hname.reads (allSound_cons.mp h).1) false
  | .array _ elements =>
    (parallel_elementList host ctx hcall elements).bind fun _ _ => .pure fun _ _ _ hcs =>
      .of_alike (fun _ _ => rfl) fun W h =>
        Code.alike_array RunState.recoding_parallel Analysis.Counterparts.resembles (hcs W h)
  | .object _ properties =>
    (parallel_propertyList host ctx hcall properties).bind fun _ _ => .pure fun _ _ _ hcs =>
      .of_alike (fun _ _ => rfl) fun W h =>
        Code.alike_object RunState.recoding_parallel Analysis.Counterparts.resembles (hcs W h)
  | .function f =>
    (Parallel.lift (parallel_func host ctx hcall f)).bind fun _ _ => .pure fun _ _ _ hfg =>
      .of_alike (fun _ _ => rfl) fun W h =>
        Code.alike_function RunState.recoding_parallel Analysis.Counterparts.resembles
          ⟨f, h, hfg.1, hfg.2⟩
  | .unary _ _ argument => by
    have hargument := parallel_expr host ctx hcall argument
    cases argument with
    | member m => exact parallel_unary hcall hargument (parallel_member host ctx hcall m)
    | _ => exact parallel_unary hcall hargument trivial
  | .update span op t before =>
    (parallel_target host ctx hcall t).bind fun _ _ => .pure fun _ _ _ hr =>
      .of_alike (fun _ _ => rfl) fun W h =>
      (hr span op before W h).alike_step RunState.recoding_parallel hcall op before
  | .binary _ op left right =>
    (parallel_expr host ctx hcall left).bind fun _ _ =>
      (parallel_expr host ctx hcall right).bind fun _ _ =>
      .pure fun _ _ _ hr hl => .of_alike (fun _ _ => rfl) fun W h =>
        .binary RunState.recoding_parallel hcall op (hl.alike (allSound_append.mp h).1)
          (hr.alike (allSound_append.mp h).2)
  | .logical _ op left right =>
    (parallel_expr host ctx hcall left).bind fun _ _ =>
      (parallel_expr host ctx hcall right).bind fun _ _ =>
      .pure fun _ _ _ hr hl => .of_alike (fun _ _ => rfl) fun W h =>
        .logical op (hl.alike (allSound_append.mp h).1) (hr.alike (allSound_append.mp h).2)
  | .assign _ _ (.identifier _) value =>
    parallel_assign_name hcall (parallel_expr host ctx hcall value)
  | .assign _ _ (.member m) value =>
    parallel_assign_member hcall (parallel_member host ctx hcall m)
      (parallel_expr host ctx hcall value)
  | .conditional _ test consequent alternate =>
    (parallel_expr host ctx hcall test).bind fun _ _ =>
      (parallel_expr host ctx hcall consequent).bind fun _ _ =>
      (parallel_expr host ctx hcall alternate).bind fun _ _ => .pure fun _ _ _ hd hc ht =>
        .of_alike (fun _ _ => rfl) fun W h =>
          .conditional (ht.alike (allSound_append.mp h).1)
            (hc.alike (allSound_append.mp (allSound_append.mp h).2).1)
            (hd.alike (allSound_append.mp (allSound_append.mp h).2).2)
  | .call _ callee arguments => by
    have hcallee := parallel_expr host ctx hcall callee
    have harguments := parallel_exprList host ctx hcall arguments
    cases callee with
    | member m => exact parallel_call hcall hcallee (parallel_member host ctx hcall m) harguments
    | _ => exact parallel_call hcall hcallee trivial harguments
  | .construct _ callee arguments =>
    (parallel_expr host ctx hcall callee).bind fun _ _ =>
      (parallel_exprList host ctx hcall arguments).bind
        fun _ _ => .pure fun _ _ _ hcs hf => .of_alike (fun _ _ => rfl) fun W h =>
          Code.alike_construct RunState.recoding_parallel hcall
            (hf.alike (allSound_append.mp h).1).boxed
            (hcs W (allSound_append.mp h).2)
  | .sequence span expressions =>
    (parallel_typedList host ctx hcall expressions).bind fun cs ds => by
      cases cs <;> cases ds <;> exact .pure fun _ _ _ hall => .sequence hall
  | .member m =>
    (parallel_member host ctx hcall m).bind fun _ _ => .pure fun _ _ _ hr =>
      .of_alike (fun _ _ => rfl) fun W h =>
      ((hr W h).mono fun _ _ hpq =>
        hpq.readAlike RunState.recoding_parallel Analysis.Counterparts.resembles).alike_load false
termination_by structural x => x

theorem parallel_typedList (host : Host) (ctx : BodyContext) (hcall : host.Agrees ctx.analysis) :
    ∀ es : List Expr, Parallel ctx (fun given given' cs ds => ∀ W,
      AllSound ctx.analysis (exprTypeSites ctx.analysis W es) →
        List.Forall₂ (TypedCode.Alike host (RunState.Parallel ctx given given' W)) cs ds)
      (typedList ctx es) (typedList ctx.untyped es)
  | [] => .pure fun _ _ _ _ _ => .nil
  | e :: rest =>
    (parallel_expr host ctx hcall e).bind fun _ _ =>
      (parallel_typedList host ctx hcall rest).bind fun _ _ =>
      .pure fun _ _ _ hcs hc W h =>
        .cons (hc.alike (allSound_append.mp h).1) (hcs W (allSound_append.mp h).2)
termination_by structural x => x

theorem parallel_exprList (host : Host) (ctx : BodyContext) (hcall : host.Agrees ctx.analysis) :
    ∀ es : List Expr, Parallel ctx (fun given given' cs ds => ∀ W,
      AllSound ctx.analysis (exprTypeSites ctx.analysis W es) →
        List.Forall₂ (Code.Alike host (RunState.Parallel ctx given given' W)) cs ds)
      (exprList ctx es) (exprList ctx.untyped es)
  | [] => .pure fun _ _ _ _ _ => .nil
  | e :: rest =>
    (parallel_expr host ctx hcall e).bind fun _ _ =>
      (parallel_exprList host ctx hcall rest).bind fun _ _ =>
      .pure fun _ _ _ hcs hc W h =>
        .cons (hc.alike (allSound_append.mp h).1).boxed (hcs W (allSound_append.mp h).2)
termination_by structural x => x

/-- Both compilations of an expression that may be left out. -/
theorem parallel_option (host : Host) (ctx : BodyContext) (hcall : host.Agrees ctx.analysis) :
    ∀ o : Option Expr, ∀ e, o = some e → ParallelExpr host ctx e
  | none => nofun
  | some e => by
    rintro _ ⟨⟩
    exact parallel_expr host ctx hcall e
termination_by structural x => x

theorem parallel_elementList (host : Host) (ctx : BodyContext) (hcall : host.Agrees ctx.analysis) :
    ∀ es : List (Option Expr), Parallel ctx (fun given given' cs ds => ∀ W,
      AllSound ctx.analysis (elementTypeSites ctx.analysis W es) →
        List.Forall₂ (Code.Alike host (RunState.Parallel ctx given given' W)) cs ds)
      (elementList ctx es) (elementList ctx.untyped es)
  | [] => .pure fun _ _ _ _ _ => .nil
  | none :: rest =>
    (parallel_elementList host ctx hcall rest).bind fun _ _ => .pure fun _ _ _ hcs W h =>
      .cons (by rw [Code.Alike, Code.eval]; exact .pure _) (hcs W h)
  | some e :: rest =>
    (parallel_expr host ctx hcall e).bind fun _ _ =>
      (parallel_elementList host ctx hcall rest).bind fun _ _ =>
      .pure fun _ _ _ hcs hc W h =>
        .cons (hc.alike (allSound_append.mp h).1).boxed (hcs W (allSound_append.mp h).2)
termination_by structural x => x

theorem parallel_propertyList (host : Host) (ctx : BodyContext) (hcall : host.Agrees ctx.analysis) :
    ∀ ps : List Property, Parallel ctx (fun given given' cs ds => ∀ W,
      AllSound ctx.analysis (propertyTypeSites ctx.analysis W ps) →
        List.Forall₂ (PropertyCode.Alike host (RunState.Parallel ctx given given' W)) cs ds)
      (propertyList ctx ps) (propertyList ctx.untyped ps)
  | [] => .pure fun _ _ _ _ _ => .nil
  | .mk _ key value :: rest =>
    (parallel_expr host ctx hcall value).bind fun _ _ =>
      (parallel_propertyList host ctx hcall rest).bind fun _ _ =>
      .pure fun _ _ _ hcs hc W h =>
        .cons (.mk key (hc.alike (allSound_append.mp h).1).boxed) (hcs W (allSound_append.mp h).2)
termination_by structural x => x

theorem parallel_member (host : Host) (ctx : BodyContext) (hcall : host.Agrees ctx.analysis) :
    ∀ m : Member, ParallelMember host ctx m
  | .named _ object property =>
    (parallel_expr host ctx hcall object).bind fun _ _ => .pure fun _ _ _ ho W h =>
      Reference.finds_member RunState.recoding_parallel hcall (ho.alike h).boxed
        (by rw [Code.Alike, Code.eval]; exact .pure _)
  | .computed _ object property =>
    (parallel_expr host ctx hcall object).bind fun _ _ =>
      (parallel_expr host ctx hcall property).bind fun _ _ =>
      .pure fun _ _ _ hk ho W h => Reference.finds_member RunState.recoding_parallel hcall
        (ho.alike (allSound_append.mp h).1).boxed (hk.alike (allSound_append.mp h).2).boxed
termination_by structural x => x

/-- Both compilations of what is counted up or down. -/
theorem parallel_target (host : Host) (ctx : BodyContext) (hcall : host.Agrees ctx.analysis) :
    ∀ t : Target, Parallel ctx (fun given given' r r' => ∀ span op before W,
      AllSound ctx.analysis ((Expr.update span op t before).typeSites ctx.analysis W) →
        r.Finds host (RunState.Parallel ctx given given' W)
          (fun p q => p.ReadAlike (RunState.Parallel ctx given given' W) q ∧
            p.WrittenAlike (RunState.Parallel ctx given given' W)
              (RunState.Parallel ctx given given' W) (·.Fits .double) q) r')
      (target ctx t) (target ctx.untyped t)
  | .identifier i =>
    (parallel_name i).bind fun _ _ => .pure fun _ _ _ hname _ _ _ _ h =>
      hname.steps (allSound_cons.mp h).1 (allSound_cons.mp (allSound_cons.mp h).2).1
  | .member m =>
    (parallel_member host ctx hcall m).mono fun _ _ _ _ _ hr _ _ _ W h =>
      (hr W h).mono fun _ _ hpq =>
      ⟨hpq.readAlike RunState.recoding_parallel Analysis.Counterparts.resembles,
        hpq.writtenAlike RunState.recoding_parallel Analysis.Counterparts.resembles _⟩
termination_by structural x => x

/-- Both compilations of a function. -/
theorem parallel_func (host : Host) (ctx : BodyContext) (hcall : host.Agrees ctx.analysis) :
    ∀ f : Func, ParallelFunc ctx.analysis f
  | .mk _ id name params _ _ _ body => by
    have hparts := parallel_functionParts
      (fun j => parallel_stmtList host (.ofBody ctx.analysis id false) hcall body j)
      (parallel_hoistList host (.ofBody ctx.analysis id false) hcall body) rfl
    rw [← BodyContext.ofBody_untyped] at hparts
    rcases hparts.of_initial with ⟨e, h, h'⟩ | ⟨r, given, r', given', h, h', -⟩
    · exact .inl ⟨e, func_of_error h, func_of_error h'⟩
    · exact .inr ⟨_, _, func_of_parts h, func_of_parts h'⟩
termination_by structural x => x

/-- Both compilations of statements. -/
theorem parallel_stmtList (host : Host) (ctx : BodyContext) (hcall : host.Agrees ctx.analysis) :
    ∀ (ss : List Stmt) (j : Jumps),
      Parallel ctx (fun given given' _ _ => StmtsAlike host ctx ss given given')
      (stmtList ctx j ss) (stmtList ctx.untyped j ss)
  | [], j => by
    rw [stmtList, stmtList]
    exact .pure fun _ _ _ top W _ => .of_same (.pure _)
  | s :: rest, j => by
    have hrest := parallel_stmtList host ctx hcall rest j
    have hboth : Parallel ctx
        (fun given given' _ _ => StmtsAlike host ctx (s :: rest) given given') (do
          let c ← stmt ctx j s
          let cs ← stmtList ctx j rest
          return c :: cs) (do
          let c ← stmt ctx.untyped j s
          let cs ← stmtList ctx.untyped j rest
          return c :: cs) :=
      (parallel_stmt host ctx hcall s j).bind fun _ _ => hrest.bind fun _ _ =>
        .pure fun _ _ _ hss hs => .cons hs hss
    cases s with
    | function f =>
      rw [stmtList, stmtList]
      exact hrest.mono fun _ _ _ _ _ h =>
        .cons (.done (fun _ _ => rfl) .normal fun _ _ => by rw [Stmt.run]) h
    | empty span =>
      rw [stmtList, stmtList]
      exact hrest.mono fun _ _ _ _ _ h =>
        .cons (.done (fun _ _ => rfl) .normal fun _ _ => by rw [Stmt.run]) h
    | _ => simpa only [stmtList] using hboth
termination_by structural x => x

/-- Both compilations of a declaration. -/
theorem parallel_declaratorList (host : Host) (ctx : BodyContext)
    (hcall : host.Agrees ctx.analysis) :
    ∀ ds : List Declarator,
      Parallel ctx (fun given given' _ _ => DeclaratorsAlike host ctx ds given given')
      (declaratorList ctx ds) (declaratorList ctx.untyped ds)
  | [] => .pure fun _ _ _ _ _ _ => Exec.Same.pure ()
  | .mk _ _ none :: rest => (parallel_declaratorList host ctx hcall rest).mono fun _ _ _ _ _ h => h
  | .mk _ name (some init) :: rest =>
    (parallel_name name).bind fun _ _ => (parallel_expr host ctx hcall init).coded.bind fun _ _ =>
      (parallel_declaratorList host ctx hcall rest).bind fun _ _ =>
        .pure fun _ _ _ hrest hinit hname =>
        .cons hname hinit hrest
termination_by structural x => x

/-- Both compilations of the clauses of a `switch`, whose value may be in different slots. -/
theorem parallel_clauseList (host : Host) (ctx : BodyContext) (hcall : host.Agrees ctx.analysis) :
    ∀ (cs : List SwitchClause) (j : Jumps) (slot slot' : Nat),
      Parallel ctx (fun given given' _ _ => ClausesAlike host ctx cs given given')
        (clauseList ctx j slot cs) (clauseList ctx.untyped j slot' cs)
  | [], j, slot, slot' => .pure fun _ _ _ => .nil
  | .mk _ none body :: rest, j, slot, slot' =>
    (parallel_stmtList host ctx hcall body j).bind fun _ _ =>
      (parallel_clauseList host ctx hcall rest j slot slot').bind fun _ _ =>
        .pure fun _ _ _ hrest hbody =>
        .cons nofun hbody hrest
  | .mk _ (some test) body :: rest, j, slot, slot' =>
    (parallel_expr host ctx hcall test).value.bind fun _ _ =>
      (parallel_stmtList host ctx hcall body j).bind
        fun _ _ => (parallel_clauseList host ctx hcall rest j slot slot').bind fun _ _ =>
          .pure fun _ _ _ hrest hbody htest => .cons (by rintro _ ⟨⟩; exact htest) hbody hrest
termination_by structural x => x

/-- Both compilations of a block. -/
theorem parallel_block (host : Host) (ctx : BodyContext) (hcall : host.Agrees ctx.analysis) :
    ∀ (b : Block) (j : Jumps),
      Parallel ctx (fun given given' _ _ => BlockAlike host ctx b given given')
      (block ctx j b) (block ctx.untyped j b)
  | .mk _ body, j =>
    (parallel_stmtList host ctx hcall body j).bind fun _ _ => .pure fun _ _ _ h _ hsites =>
      h.inner hsites
termination_by structural x => x

/-- Both compilations of a `catch` clause. -/
theorem parallel_handler (host : Host) (ctx : BodyContext) (hcall : host.Agrees ctx.analysis) :
    ∀ (h : Handler) (j : Jumps) (body body' : StatementCode),
      Parallel ctx (fun given given' _ _ => HandlerAlike host ctx h given given')
        (handler ctx j body h) (handler ctx.untyped j body' h)
  | .mk _ param b, j, _, _ =>
    (parallel_name param).bind fun _ _ => (parallel_block host ctx hcall b j).bind fun _ _ =>
      .pure fun _ _ _ hb hname => .mk hname hb
termination_by structural x => x

/-- Both compilations of the first part of the head of a `for` loop. -/
theorem parallel_forInit (host : Host) (ctx : BodyContext) (hcall : host.Agrees ctx.analysis) :
    ∀ init : ForInit, Parallel ctx (fun given given' _ _ => ForInitAlike host ctx init given given')
      (forInit ctx init) (forInit ctx.untyped init)
  | .nothing => .pure fun _ _ _ _ _ _ => Exec.Same.pure ()
  | .declaration _ ds => (parallel_declaratorList host ctx hcall ds).mono fun _ _ _ _ _ h => h
  | .expression e =>
    (parallel_expr host ctx hcall e).value.bind fun _ _ => .pure fun _ _ _ h top _ hsites =>
      h.effect hsites top
termination_by structural x => x

/-- Both compilations of what the keys of a loop are assigned to. -/
theorem parallel_forInPlace (host : Host) (ctx : BodyContext) (hcall : host.Agrees ctx.analysis) :
    ∀ left : ForInTarget,
      Parallel ctx (fun given given' _ _ => AssignAlike host ctx left given given')
      (forInPlace ctx left) (forInPlace ctx.untyped left)
  | .declaration i | .target (.identifier i) =>
    parallel_forInPlace_of ((parallel_name i).bind fun _ _ => .pure fun _ _ _ hname _ h =>
      hname.writes_inner (allSound_cons.mp h).1)
  | .target (.member m) => parallel_forInPlace_of ((parallel_member host ctx hcall m).mono
      fun _ _ _ _ _ hr W h => (hr W h).mono fun _ _ hpq =>
        hpq.writtenAlike RunState.recoding_parallel Analysis.Counterparts.resembles _)
termination_by structural x => x

/-- Both compilations of a statement. -/
theorem parallel_stmt (host : Host) (ctx : BodyContext) (hcall : host.Agrees ctx.analysis) :
    ∀ (s : Stmt) (j : Jumps), ParallelStmt host ctx j s
  | .expression _ e, j =>
    (parallel_expr host ctx hcall e).value.bind fun _ _ => .pure fun _ _ _ h => .expression h
  | .block b, j => (parallel_block host ctx hcall b j).mono fun _ _ _ _ _ h => .block h
  | .empty _, j | .debugger _, j | .function _, j =>
    .pure fun _ _ _ => .done (fun _ _ => rfl) .normal fun _ _ => by rw [Stmt.run]
  | .declaration _ ds, j =>
    (parallel_declaratorList host ctx hcall ds).bind fun _ _ => .pure fun _ _ _ h => .declaration h
  | .ret _ none, j =>
    .ite (.throw _) (.pure fun _ _ _ =>
      .done (fun _ _ => rfl) (.ret .undefined) fun _ _ => by rw [Stmt.run])
  | .ret _ (some e), j =>
    .ite (.throw _) ((parallel_expr host ctx hcall e).value.bind fun _ _ =>
      .pure fun _ _ _ h => .ret h)
  | .brk _ label, j =>
    parallel_jumpTo _ fun _ _ => .done (fun _ _ => rfl) (.brk label) fun _ _ => by rw [Stmt.run]
  | .cont _ label, j =>
    parallel_jumpTo _ fun _ _ => .done (fun _ _ => rfl) (.cont label) fun _ _ => by rw [Stmt.run]
  | .labeled _ label body, j => by
    rw [ParallelStmt, stmt_labeled, stmt_labeled]
    cases j.label label with
    | error e => exact .throw e
    | ok k =>
      exact .ite ((parallel_stmt host ctx hcall body k).mono fun _ _ _ _ _ h => .labeled h)
        ((parallel_stmt host ctx hcall body _).bind fun _ _ => .pure fun _ _ _ h => .labeled h)
  | .conditional _ test consequent none, j =>
    (parallel_expr host ctx hcall test).value.bind fun _ _ =>
      (parallel_stmt host ctx hcall consequent j).bind
        fun _ _ => .pure fun _ _ _ hc ht => .conditional ht hc
  | .conditional _ test consequent (some alternate), j =>
    (parallel_expr host ctx hcall test).value.bind fun _ _ =>
      (parallel_stmt host ctx hcall consequent j).bind
        fun _ _ => (parallel_stmt host ctx hcall alternate j).bind fun _ _ =>
          .pure fun _ _ _ hd hc ht =>
          .either ht hc hd
  | .switch _ discriminant clauses, j =>
    (parallel_expr host ctx hcall discriminant).value.bind fun _ _ =>
      parallel_newSlot.bind fun slot slot' =>
      (parallel_clauseList host ctx hcall clauses (j.enter .switch) slot.index slot'.index).bind
        fun _ _ =>
        .pure fun _ _ _ hcs _ hd => .switch hd hcs
  | .throw _ e, j =>
    (parallel_expr host ctx hcall e).value.bind fun _ _ => .pure fun _ _ _ h => .throw h
  | .tryCatch _ b none none, j =>
    (parallel_block host ctx hcall b j).bind fun _ _ => .pure fun _ _ _ hb =>
      .tryCatch hb nofun nofun
  | .tryCatch _ b (some h) none, j =>
    (parallel_block host ctx hcall b j).bind fun _ _ =>
      (parallel_handler host ctx hcall h j _ _).bind fun _ _ =>
      .pure fun _ _ _ hh hb => .tryCatch hb (by rintro _ ⟨⟩; exact hh) nofun
  | .tryCatch _ b none (some f), j =>
    (parallel_block host ctx hcall b j).bind fun _ _ =>
      (parallel_block host ctx hcall f j).bind fun _ _ =>
      .pure fun _ _ _ hf hb => .tryCatch hb nofun (by rintro _ ⟨⟩; exact hf)
  | .tryCatch _ b (some h) (some f), j =>
    (parallel_block host ctx hcall b j).bind fun _ _ =>
      (parallel_handler host ctx hcall h j _ _).bind fun _ _ =>
      (parallel_block host ctx hcall f j).bind fun _ _ => .pure fun _ _ _ hf hh hb =>
        .tryCatch hb (by rintro _ ⟨⟩; exact hh) (by rintro _ ⟨⟩; exact hf)
  | .while _ test body, j =>
    (parallel_expr host ctx hcall test).value.bind fun _ _ =>
      (parallel_stmt host ctx hcall body (j.enter .loop)).bind fun _ _ => .pure fun _ _ _ hb ht =>
        .while ht hb
  | .doWhile _ test body, j =>
    (parallel_expr host ctx hcall test).value.bind fun _ _ =>
      (parallel_stmt host ctx hcall body (j.enter .loop)).bind fun _ _ => .pure fun _ _ _ hb ht =>
        .doWhile ht hb
  | .for _ init test update body, j => by
    rw [ParallelStmt, stmt_for, stmt_for]
    exact (parallel_forInit host ctx hcall init).bind fun _ _ =>
      (parallel_forTest (parallel_option host ctx hcall test)).bind fun _ _ =>
        (parallel_forUpdate (parallel_option host ctx hcall update)).bind fun _ _ =>
          (parallel_stmt host ctx hcall body (j.enter .loop)).bind fun _ _ =>
            .pure fun _ _ _ hb hu ht hfirst => .for hfirst ht hu hb
  | .forIn _ left right body, j => by
    rw [ParallelStmt, stmt_forIn, stmt_forIn]
    exact (parallel_forInPlace host ctx hcall left).bind fun _ _ =>
      (parallel_expr host ctx hcall right).value.bind
        fun _ _ => (parallel_stmt host ctx hcall body (j.enter .loop)).bind fun _ _ =>
          .pure fun _ _ _ hb ho hplace => .forIn hplace ho hb
  | .with _ id object body, j => by
    rw [ParallelStmt, stmt_with, stmt_with]
    exact (parallel_withEntry hcall id (parallel_expr host ctx hcall object)).bind fun _ _ =>
      (parallel_stmt host ctx hcall body j).bind fun _ _ => .pure fun _ _ _ hb hc => .with hc hb
termination_by structural x => x

theorem parallel_hoistList (host : Host) (ctx : BodyContext) (hcall : host.Agrees ctx.analysis) :
    ∀ ss : List Stmt, Parallel ctx (HoistAlike host ctx (stmtTypeSites ctx.analysis · · ss))
      (hoistList ctx ss) (hoistList ctx.untyped ss)
  | [] => parallel_nothing
  | s :: rest =>
    parallel_both (parallel_hoist host ctx hcall s) (parallel_hoistList host ctx hcall rest)
      fun _ _ h => ⟨_, _, _, allSound_append.mp h⟩
termination_by structural x => x

theorem parallel_hoistBlock (host : Host) (ctx : BodyContext) (hcall : host.Agrees ctx.analysis) :
    ∀ b : Block, Parallel ctx (HoistAlike host ctx fun _ W => b.typeSites ctx.analysis W)
      (hoistBlock ctx b) (hoistBlock ctx.untyped b)
  | .mk _ body =>
    (parallel_hoistList host ctx hcall body).mono fun _ _ _ _ _ h _ W hsites => h false W hsites
termination_by structural x => x

theorem parallel_hoistClauses (host : Host) (ctx : BodyContext) (hcall : host.Agrees ctx.analysis) :
    ∀ cs : List SwitchClause,
      Parallel ctx (HoistAlike host ctx fun _ W => clauseTypeSites ctx.analysis W cs)
      (hoistClauses ctx cs) (hoistClauses ctx.untyped cs)
  | [] => parallel_nothing
  | .mk _ _ body :: rest => parallel_both (parallel_hoistList host ctx hcall body)
      (parallel_hoistClauses host ctx hcall rest) fun _ _ h =>
        ⟨false, false, _, allSound_append.mp (allSound_append.mp h).2⟩
termination_by structural x => x

/-- Both compilations of what makes the functions declared in a statement. -/
theorem parallel_hoist (host : Host) (ctx : BodyContext) (hcall : host.Agrees ctx.analysis) :
    ∀ s : Stmt, Parallel ctx (HoistAlike host ctx (s.typeSites ctx.analysis · ·)) (hoist ctx s)
      (hoist ctx.untyped s)
  | .function f => by
    rw [hoist_function, hoist_function]
    cases hname : f.identifier? with
    | none => exact parallel_nothing
    | some name =>
      refine (Parallel.lift (parallel_func host ctx hcall f)).bind fun code code' =>
        (parallel_declaredFunction host name code code').bind fun _ _ =>
          .pure fun _ _ _ hc hfg _ _ hsites => ?_
      change AllSound _ (f.identifier?.toList.map .declared ++ _) at hsites
      rw [hname] at hsites
      obtain ⟨hreceives, hsites⟩ := allSound_cons.mp hsites
      exact .cons (hc hreceives ⟨f, hsites, hfg⟩) .nil
  | .block b => (parallel_hoistBlock host ctx hcall b).mono fun _ _ _ _ _ h => h
  | .labeled _ _ body =>
    (parallel_hoist host ctx hcall body).mono fun _ _ _ _ _ h _ W hsites => h false W hsites
  | .while _ _ body => (parallel_hoist host ctx hcall body).mono fun _ _ _ _ _ h _ W hsites =>
      h false W (allSound_append.mp hsites).2
  | .doWhile _ _ body => (parallel_hoist host ctx hcall body).mono fun _ _ _ _ _ h _ W hsites =>
      h false W (allSound_append.mp hsites).1
  | .with _ _ _ body => (parallel_hoist host ctx hcall body).mono fun _ _ _ _ _ h _ W hsites =>
      h false W (allSound_append.mp (allSound_cons.mp hsites).2).2
  | .conditional _ _ c none => (parallel_hoist host ctx hcall c).mono fun _ _ _ _ _ h _ W hsites =>
      h false W (allSound_append.mp hsites).2
  | .conditional _ _ c (some a) =>
    parallel_both (parallel_hoist host ctx hcall c) (parallel_hoist host ctx hcall a)
      fun _ _ hsites => ⟨false, false, _, allSound_append.mp (allSound_append.mp hsites).2⟩
  | .for _ init _ _ body =>
    (parallel_hoist host ctx hcall body).mono fun _ _ _ _ _ h top W hsites =>
      h false (init.after ctx.analysis top W)
        (allSound_append.mp (allSound_append.mp (allSound_append.mp hsites).2).2).1
  | .forIn _ _ _ body => (parallel_hoist host ctx hcall body).mono fun _ _ _ _ _ h _ W hsites =>
      h false W (allSound_append.mp (allSound_append.mp hsites).2).2
  | .switch _ _ clauses =>
    (parallel_hoistClauses host ctx hcall clauses).mono fun _ _ _ _ _ h _ W hsites =>
      h false W (allSound_append.mp hsites).2
  | .tryCatch _ b none none =>
    parallel_three (parallel_hoistBlock host ctx hcall b) parallel_nothing parallel_nothing
  | .tryCatch _ b none (some f) =>
    parallel_three (parallel_hoistBlock host ctx hcall b) parallel_nothing
      (parallel_hoistBlock host ctx hcall f)
  | .tryCatch _ b (some (.mk _ _ hb)) none => parallel_three (parallel_hoistBlock host ctx hcall b)
      ((parallel_hoistBlock host ctx hcall hb).mono fun _ _ _ _ _ h _ W hsites =>
        h false W (allSound_cons.mp hsites).2) parallel_nothing
  | .tryCatch _ b (some (.mk _ _ hb)) (some f) =>
    parallel_three (parallel_hoistBlock host ctx hcall b)
      ((parallel_hoistBlock host ctx hcall hb).mono fun _ _ _ _ _ h _ W hsites =>
        h false W (allSound_cons.mp hsites).2) (parallel_hoistBlock host ctx hcall f)
  | .expression .. | .empty _ | .debugger _ | .ret .. | .brk .. | .cont .. | .throw
    .. | .declaration .. =>
    parallel_nothing
termination_by structural x => x

end

end Compile

end ScriptEngine
