import ScriptEngine.Proofs.Compile.Frame
import ScriptEngine.Proofs.Compile.Stores

/-!
# Writes of typed slots in bodies

The code of the statements of a body writes typed slots only where a piece of the body does, and
reads them only if their variables are written by some statement of the body itself.

## Main statements

* `Compile.typed_stmt` : the effects of a statement.
* `Compile.permitted_hoist` : the functions that are made at the entry of a body.
* `Compile.typed_functionParts`, `Compile.typed_scriptParts` : the effects of whole bodies.
-/

namespace ScriptEngine

/-! ### Written variables -/

section

variable {a : Analysis} {W : Set VariableId}

theorem Analysis.subset_written (top : Bool) (i : Identifier) : W ⊆ a.written top W i :=
  fun _ => .inl

theorem subset_declaratorsAfter (top : Bool) (ds : List Declarator) :
    W ⊆ declaratorsAfter a top W ds := by
  fun_induction declaratorsAfter a top W ds with
  | case1 => exact subset_rfl
  | case2 _ _ _ _ ih => exact ih
  | case3 _ _ _ _ _ ih => exact (a.subset_written top _).trans ih

theorem Expr.subset_after (top : Bool) (e : Expr) : W ⊆ e.after a top W := by
  unfold Expr.after
  split
  · exact a.subset_written top _
  · exact subset_rfl

theorem ForInit.subset_after (top : Bool) (init : ForInit) : W ⊆ init.after a top W := by
  cases init with
  | nothing => exact subset_rfl
  | declaration span ds => exact subset_declaratorsAfter top ds
  | expression e => exact e.subset_after top

theorem Stmt.subset_after (top : Bool) (s : Stmt) : W ⊆ s.after a top W := by
  unfold Stmt.after
  split
  · exact Expr.subset_after top _
  · exact subset_declaratorsAfter top _
  · exact ForInit.subset_after top _
  · exact subset_rfl

theorem subset_stmtsAfter (top : Bool) (ss : List Stmt) : W ⊆ stmtsAfter a top W ss := by
  induction ss generalizing W with
  | nil => exact subset_rfl
  | cons s rest ih => exact (s.subset_after top).trans ih

end

namespace Compile

variable {ctx : BodyContext} {given : BodyState} {W : Set VariableId} {ps : List Piece}
  {i : Identifier} {acc : Access} {c : TypedCode} {j : Jumps}

/-! ### Parts of statements -/

theorem typed_expr (W : Set VariableId) (e : Expr)
    (h : AllSound ctx.analysis (e.typeSites ctx.analysis W)) :
    Ensures ctx (fun given c => expr ctx e given = .ok (c, given) ∧
      Typed ctx given W e.pieces c.effects) (expr ctx e) :=
  typed_of_inside (typed_inside W e h) h

/-- An expression that is an assignment on its own. -/
theorem typed_assignment {span : Span} {value : Expr}
    (hsites : AllSound ctx.analysis
      ((Expr.assign span .plain (.identifier i) value).typeSites ctx.analysis W))
    (hacc : identifier ctx i given = .ok (acc, given) ∧ Named ctx given i acc)
    (hc : expr ctx value given = .ok (c, given) ∧ Typed ctx given W value.pieces c.effects) :
    Typed ctx given W (Expr.assign span .plain (.identifier i) value).pieces
      (acc.store c).effects := by
  have hinside : TypedInside ctx given W (.assign span .plain (.identifier i) value)
      (acc.store c).effects :=
    typedInside_store hacc hc
  refine ⟨hinside.effects,
    List.forall_mem_cons.mpr ⟨⟨⟨W, hsites⟩, acc.store c, ?_⟩, hinside.pieces⟩⟩
  rw [expr, bind_of_ok hacc.1, bind_of_ok hc.1]
  rfl

theorem typed_declaratorList (top : Bool) (W : Set VariableId) : ∀ ds : List Declarator,
    AllSound ctx.analysis (declaratorTypeSites ctx.analysis top W ds) →
      Ensures ctx (fun given cs => Typed ctx given (declaratorsAfter ctx.analysis top W ds)
        (declaratorPieces ds) (statementEffects cs)) (declaratorList ctx ds)
  | [], _ => .pure fun _ => .nil
  | .mk _ _ none :: rest, h => by
    rw [declaratorList]
    exact typed_declaratorList top W rest h
  | .mk span name (some init) :: rest, h => by
    obtain ⟨hinit, h⟩ := allSound_append.mp h
    obtain ⟨hwrite, hrest⟩ := allSound_cons.mp h
    rw [declaratorList]
    refine (ensures_named hwrite.guarded).bind fun acc => (typed_expr W init hinit).bind fun v =>
      (typed_declaratorList top _ rest hrest).bind fun cs => .pure fun given hcs hv hacc => ?_
    have hsites : AllSound ctx.analysis
        ((Expr.assign span .plain (.identifier name) init).typeSites ctx.analysis W) :=
      allSound_append.mpr ⟨hinit, List.forall_mem_singleton.mpr hwrite⟩
    refine ((typed_assignment hsites hacc hv).mono ?_).append hcs
    · exact (ctx.analysis.subset_written top name).trans (subset_declaratorsAfter top rest)

theorem typed_forInit (top : Bool) (W : Set VariableId) (init : ForInit)
    (h : AllSound ctx.analysis (init.typeSites ctx.analysis top W)) :
    Ensures ctx (fun given cs => Typed ctx given (init.after ctx.analysis top W) init.pieces
      (statementEffects cs)) (forInit ctx init) := by
  cases init with
  | nothing => exact .pure fun _ => .nil
  | declaration span ds => exact typed_declaratorList top W ds h
  | expression e =>
    refine (typed_expr W e h).bind fun c => .pure fun _ hc => ?_
    have hall := hc.2.append .nil
    rw [List.append_nil] at hall
    exact hall.mono (e.subset_after top)

theorem typed_forTest (W : Set VariableId) (test : Option Expr)
    (h : AllSound ctx.analysis (optionTypeSites ctx.analysis W test)) :
    Ensures ctx (fun given c => Typed ctx given W (optionPieces test) c.effects)
      (forTest ctx test) := by
  cases test with
  | none => exact .pure fun _ => .nil
  | some e =>
    refine (typed_expr W e h).bind fun c => .pure fun _ hc => ?_
    rw [effects_inRep]
    exact hc.2

theorem typed_forUpdate (W : Set VariableId) (update : Option Expr)
    (h : AllSound ctx.analysis (optionTypeSites ctx.analysis W update)) :
    Ensures ctx (fun given c => Typed ctx given W (optionPieces update) c.effects)
      (forUpdate ctx update) := by
  cases update with
  | none => exact .pure fun _ => .nil
  | some e => exact (typed_expr W e h).bind fun c => .pure fun _ hc => hc.2

/-- The place that a `for`-`in` loop writes. -/
theorem typed_forInPlace (W : Set VariableId) (left : ForInTarget)
    (h : AllSound ctx.analysis (left.typeSites ctx.analysis W)) :
    Ensures ctx (fun given r => Typed ctx given W left.pieces (r.effects ++ r.writes .string))
      (forInPlace ctx left) := by
  have hname {given : BodyState} {i : Identifier} {acc : Access}
      (hi : ctx.analysis.Writes i .string)
      (hcode : identifier ctx i given = .ok (acc, given)) (hacc : Named ctx given i acc) :
      Typed ctx given W [.key i]
        ((Reference.name acc).effects ++ (Reference.name acc).writes .string) :=
    ⟨List.forall_mem_append.mpr ⟨hacc.permitted_effects,
      hacc.permitted_writes List.mem_cons_self (fun _ => .key hcode) nofun⟩,
        List.forall_mem_singleton.mpr hi⟩
  cases left with
  | declaration i =>
    have hi := (allSound_cons.mp h).1
    exact (ensures_named hi.guarded).bind fun acc => .pure fun _ hacc => hname hi hacc.1 hacc.2
  | target t =>
    cases t with
    | identifier i =>
      have hi := (allSound_cons.mp h).1
      refine (ensures_namedTarget hi.guarded).mono fun _ r hr => ?_
      obtain ⟨acc, rfl, hcode, hacc⟩ := hr
      exact hname hi hcode hacc
    | member m =>
      refine Ensures.mono (x := member ctx m) (typed_member W m h) fun _ r hr => ?_
      rw [hr.writes, List.append_nil]
      exact hr.effects

/-- The code that keeps the object of a `with` statement. -/
theorem typed_withEntry (W : Set VariableId) (id : NodeId) (object : Expr)
    (hid : (TypeSite.held id).Sound ctx.analysis)
    (h : AllSound ctx.analysis (object.typeSites ctx.analysis W)) :
    Ensures ctx (fun given c => Typed ctx given W (.held id :: object.pieces) c.effects)
      (withEntry ctx id object) := by
  unfold withEntry
  split
  · exact .throw _
  · next v hv =>
    obtain ⟨hconcrete, hkind⟩ := hid v hv
    refine (Ensures.of_steady (steady_access v)).sound.bind fun acc =>
      (typed_expr W object h).bind fun o =>
      .pure fun given ho hacc => Typed.cons ⟨?_, ho.2.pieces⟩ hid
    obtain ⟨hs, hcode, -⟩ := hacc
    obtain ⟨hscopes, hbinding⟩ := not_isTyped_of_access hs hconcrete hkind hcode
    refine permitted_store (by simp [hscopes]) (fun ht => absurd ht hbinding) ?_
    rw [effects_mk, Code.effects, effects_inRep]
    exact ho.2.effects

/-- A function declaration stands where the types of variables can be relied upon. -/
theorem declares_of_sites {f : Func} {W : Set VariableId} {top : Bool}
    (h : AllSound ctx.analysis ((Stmt.function f).typeSites ctx.analysis top W)) :
    f.Sound ctx.analysis where
  receives name hname := h (.declared name) (List.mem_append_left _ (List.mem_map_of_mem
    (by rw [hname]; exact List.mem_singleton_self name)))
  sites := (allSound_append.mp h).2

/-! ### Statements -/

/-- Statements that are left out. -/
theorem Typed.leftOut {es : List Effect} (hps : ∀ p ∈ ps, p.Known ctx given) {ps' : List Piece}
    (h : Typed ctx given W ps' es) : Typed ctx given W (ps ++ ps') es :=
  (⟨nofun, hps⟩ : Typed ctx given W ps []).append h

/-- After statements that are not those of a body itself no more variables are known to be
written. -/
theorem typed_inner {ss : List Stmt} (h : Ensures ctx (fun given cs =>
    Typed ctx given (stmtsAfter ctx.analysis false W ss) (stmtPieces ss) (statementEffects cs))
      (stmtList ctx j ss)) :
    Ensures ctx (fun given cs => Typed ctx given W (stmtPieces ss) (statementEffects cs))
      (stmtList ctx j ss) := by
  rwa [stmtsAfter_false] at h

/-- After a statement that is not one of a body itself no more variables are known to be written. -/
theorem typed_within {s : Stmt} (h : Ensures ctx (fun given c =>
    Typed ctx given (s.after ctx.analysis false W) s.pieces c.effects) (stmt ctx j s)) :
    Ensures ctx (fun given c => Typed ctx given W s.pieces c.effects) (stmt ctx j s) := by
  rwa [Stmt.after_false] at h

section Kinds

variable {top : Bool} {span : Span}

theorem typed_expression {e : Expr}
    (h : AllSound ctx.analysis ((Stmt.expression span e).typeSites ctx.analysis top W)) :
    Ensures ctx (fun given c => Typed ctx given ((Stmt.expression span e).after ctx.analysis top W)
      (Stmt.expression span e).pieces c.effects) (stmt ctx j (.expression span e)) := by
  refine (typed_expr W e h).bind fun c => .pure fun _ hc => ?_
  have hafter := hc.2.mono (e.subset_after (a := ctx.analysis) top)
  split
  · rw [StatementCode.effects, effects_inRep]
    exact hafter
  · exact hafter

theorem typed_ret {argument : Option Expr}
    (h : AllSound ctx.analysis ((Stmt.ret span argument).typeSites ctx.analysis top W)) :
    Ensures ctx (fun given c => Typed ctx given W (Stmt.ret span argument).pieces c.effects)
      (stmt ctx j (.ret span argument)) := by
  cases argument with
  | none =>
    rw [stmt_ret_none]
    split
    · exact .throw _
    · exact .pure fun _ => .nil
  | some e =>
    rw [stmt_ret_some]
    split
    · exact .throw _
    · refine (typed_expr W e h).bind fun c => .pure fun _ hc => ?_
      rw [StatementCode.effects, effects_inRep]
      exact hc.2

theorem typed_throw {e : Expr}
    (h : AllSound ctx.analysis ((Stmt.throw span e).typeSites ctx.analysis top W)) :
    Ensures ctx (fun given c => Typed ctx given W (Stmt.throw span e).pieces c.effects)
      (stmt ctx j (.throw span e)) := by
  refine (typed_expr W e h).bind fun c => .pure fun _ hc => ?_
  rw [StatementCode.effects, effects_inRep]
  exact hc.2

theorem typed_labeled {label : String} {body : Stmt}
    (hbody : ∀ k, Ensures ctx (fun given c => Typed ctx given W body.pieces c.effects)
      (stmt ctx k body)) :
    Ensures ctx (fun given c => Typed ctx given W (Stmt.labeled span label body).pieces c.effects)
      (stmt ctx j (.labeled span label body)) := by
  rw [stmt_labeled]
  split
  · exact .throw _
  · next k hk =>
    split
    · exact hbody k
    · exact (hbody (k.enter .labeled)).bind fun _ => .pure fun _ hc => hc

theorem typed_conditional {test : Expr} {consequent : Stmt} {alternate : Option Stmt}
    (htest : AllSound ctx.analysis (test.typeSites ctx.analysis W))
    (hconsequent : Ensures ctx (fun given c => Typed ctx given W consequent.pieces c.effects)
      (stmt ctx j consequent))
    (halternate : ∀ s ∈ alternate, Ensures ctx (fun given c => Typed ctx given W s.pieces c.effects)
      (stmt ctx j s)) :
    Ensures ctx (fun given c =>
      Typed ctx given W (Stmt.conditional span test consequent alternate).pieces c.effects)
      (stmt ctx j (.conditional span test consequent alternate)) := by
  cases alternate with
  | none =>
    refine (typed_expr W test htest).bind fun t => hconsequent.bind fun c => .pure fun _ hc ht => ?_
    have hall := ht.2.append (hc.append .nil)
    rw [List.append_nil] at hall
    rw [StatementCode.effects, effects_inRep]
    exact hall
  | some alternate =>
    refine (typed_expr W test htest).bind fun t => hconsequent.bind fun c =>
      (halternate alternate rfl).bind fun d => .pure fun _ hd hc ht => ?_
    rw [StatementCode.effects, effects_inRep]
    exact ht.2.append (hc.append hd)

theorem typed_switch {discriminant : Expr} {clauses : List SwitchClause}
    (h : AllSound ctx.analysis
      ((Stmt.switch span discriminant clauses).typeSites ctx.analysis top W))
    (hclauses : AllSound ctx.analysis (clauseTypeSites ctx.analysis W clauses) → ∀ slot,
      Ensures ctx (fun given cs => Typed ctx given W (clausePieces clauses) (clauseEffects cs))
        (clauseList ctx (j.enter .switch) slot clauses)) :
    Ensures ctx (fun given c =>
      Typed ctx given W (Stmt.switch span discriminant clauses).pieces c.effects)
      (stmt ctx j (.switch span discriminant clauses)) := by
  obtain ⟨hd, hcs⟩ := allSound_append.mp h
  refine (typed_expr W discriminant hd).bind fun d => ensures_newSlot.bind fun slot =>
    (hclauses hcs slot.index).bind fun cs => .pure fun given hcs _ hd => ?_
  have hslot : Typed ctx given W [] [.write (.slot .boxed slot.index) .any] :=
    .plain (List.forall_mem_singleton.mpr
      ((permitted_of_not_isTyped (x := .slot .boxed _) fun h => h rfl).2 _))
  rw [StatementCode.effects, effects_inRep]
  exact hd.2.append (hslot.append hcs)

theorem typed_tryCatch {b : Block} {handled : Option Handler} {finalizer : Option Block}
    (hblock : Ensures ctx (fun given c => Typed ctx given W b.pieces c.effects) (block ctx j b))
    (hhandler : ∀ h ∈ handled, ∀ body, Ensures ctx (fun given c => ∀ ps,
      Typed ctx given W ps body.effects → Typed ctx given W (ps ++ h.pieces) c.effects)
        (handler ctx j body h))
    (hfinalizer : ∀ f ∈ finalizer, Ensures ctx (fun given c => Typed ctx given W f.pieces c.effects)
      (block ctx j f)) :
    Ensures ctx (fun given c =>
      Typed ctx given W (Stmt.tryCatch span b handled finalizer).pieces c.effects)
      (stmt ctx j (.tryCatch span b handled finalizer)) := by
  rw [stmt_tryCatch]
  cases handled with
  | none =>
    cases finalizer with
    | none =>
      refine hblock.bind fun _ => .pure fun given hbody => ?_
      change Typed ctx given W (b.pieces ++ ([] ++ [])) _
      simpa only [List.append_nil] using hbody
    | some f =>
      exact hblock.bind fun _ => (hfinalizer f rfl).bind fun _ => .pure fun _ hd hbody =>
        hbody.append hd
  | some h =>
    cases finalizer with
    | none =>
      refine hblock.bind fun body => (hhandler h rfl body).bind fun _ =>
        .pure fun given hc hbody => ?_
      change Typed ctx given W (b.pieces ++ (h.pieces ++ [])) _
      rw [List.append_nil]
      exact hc _ hbody
    | some f =>
      refine hblock.bind fun body => (hhandler h rfl body).bind fun _ => (hfinalizer f rfl).bind
        fun _ => .pure fun _ hd hc hbody => ?_
      have hall := (hc _ hbody).append hd
      rw [List.append_assoc] at hall
      exact hall

section Loops

variable {body : Stmt}

theorem typed_while {test : Expr}
    (h : AllSound ctx.analysis ((Stmt.while span test body).typeSites ctx.analysis top W))
    (hbody : AllSound ctx.analysis (body.typeSites ctx.analysis false W) →
      Ensures ctx (fun given c => Typed ctx given W body.pieces c.effects)
        (stmt ctx (j.enter .loop) body)) :
    Ensures ctx (fun given c => Typed ctx given W (Stmt.while span test body).pieces c.effects)
      (stmt ctx j (.while span test body)) := by
  obtain ⟨htest, hb⟩ := allSound_append.mp h
  refine (typed_expr W test htest).bind fun t => (hbody hb).bind fun b => .pure fun _ hb ht => ?_
  rw [StatementCode.effects, effects_inRep]
  exact ht.2.append hb

theorem typed_doWhile {test : Expr}
    (h : AllSound ctx.analysis ((Stmt.doWhile span test body).typeSites ctx.analysis top W))
    (hbody : AllSound ctx.analysis (body.typeSites ctx.analysis false W) →
      Ensures ctx (fun given c => Typed ctx given W body.pieces c.effects)
        (stmt ctx (j.enter .loop) body)) :
    Ensures ctx (fun given c => Typed ctx given W (Stmt.doWhile span test body).pieces c.effects)
      (stmt ctx j (.doWhile span test body)) := by
  obtain ⟨hb, htest⟩ := allSound_append.mp h
  refine (typed_expr W test htest).bind fun t => (hbody hb).bind fun b => .pure fun _ hb ht => ?_
  rw [StatementCode.effects, effects_inRep]
  exact hb.append ht.2

/-- What comes first in the head of a loop is written in the rest of it. -/
theorem typed_for {init : ForInit} {test update : Option Expr}
    (h : AllSound ctx.analysis ((Stmt.for span init test update body).typeSites ctx.analysis top W))
    (hbody : AllSound ctx.analysis
        (body.typeSites ctx.analysis false (init.after ctx.analysis top W)) →
      Ensures ctx (fun given c =>
          Typed ctx given (init.after ctx.analysis top W) body.pieces c.effects)
        (stmt ctx (j.enter .loop) body)) :
    Ensures ctx (fun given c =>
      Typed ctx given ((Stmt.for span init test update body).after ctx.analysis top W)
        (Stmt.for span init test update body).pieces c.effects)
      (stmt ctx j (.for span init test update body)) := by
  obtain ⟨hinit, h⟩ := allSound_append.mp h
  obtain ⟨htest, h⟩ := allSound_append.mp h
  obtain ⟨hb, hupdate⟩ := allSound_append.mp h
  rw [stmt_for]
  refine (typed_forInit top W init hinit).bind
    fun first => (typed_forTest _ test htest).bind fun t =>
    (typed_forUpdate _ update hupdate).bind fun u => (hbody hb).bind fun b =>
      .pure fun _ hb hu ht hfirst => ?_
  have hloop := ht.append (hu.append hb)
  rw [StatementCode.effects, statementEffects_append, statementEffects, statementEffects,
    List.append_nil]
  exact hfirst.append hloop

theorem typed_forIn {left : ForInTarget} {right : Expr}
    (h : AllSound ctx.analysis ((Stmt.forIn span left right body).typeSites ctx.analysis top W))
    (hbody : AllSound ctx.analysis (body.typeSites ctx.analysis false W) →
      Ensures ctx (fun given c => Typed ctx given W body.pieces c.effects)
        (stmt ctx (j.enter .loop) body)) :
    Ensures ctx (fun given c =>
      Typed ctx given W (Stmt.forIn span left right body).pieces c.effects)
      (stmt ctx j (.forIn span left right body)) := by
  obtain ⟨hright, h⟩ := allSound_append.mp h
  obtain ⟨hleft, hb⟩ := allSound_append.mp h
  rw [stmt_forIn]
  refine (typed_forInPlace W left hleft).bind fun place => (typed_expr W right hright).bind fun o =>
    (hbody hb).bind fun b => .pure fun _ hb ho hplace => ?_
  have hall := ho.2.append (hplace.append hb)
  rw [List.append_assoc] at hall
  rw [StatementCode.effects, effects_inRep]
  exact hall

end Loops

theorem typed_with {id : NodeId} {object : Expr} {body : Stmt}
    (h : AllSound ctx.analysis ((Stmt.with span id object body).typeSites ctx.analysis top W))
    (hbody : AllSound ctx.analysis (body.typeSites ctx.analysis false W) →
      Ensures ctx (fun given c => Typed ctx given W body.pieces c.effects) (stmt ctx j body)) :
    Ensures ctx (fun given c => Typed ctx given W (Stmt.with span id object body).pieces c.effects)
      (stmt ctx j (.with span id object body)) := by
  obtain ⟨hid, h⟩ := allSound_cons.mp h
  obtain ⟨hobject, hb⟩ := allSound_append.mp h
  rw [stmt_with]
  refine (typed_withEntry W id object hid hobject).bind fun c => (hbody hb).bind fun b =>
    .pure fun _ hb hc => ?_
  have hall := hc.append hb
  rw [StatementCode.effects, statementEffects, statementEffects, statementEffects, List.append_nil]
  exact hall

end Kinds

mutual

/-- The effects of statements come from their pieces. -/
theorem typed_stmtList (top : Bool) (W : Set VariableId) : ∀ (ss : List Stmt) (j : Jumps),
    AllSound ctx.analysis (stmtTypeSites ctx.analysis top W ss) →
      Ensures ctx (fun given cs => Typed ctx given (stmtsAfter ctx.analysis top W ss)
        (stmtPieces ss) (statementEffects cs)) (stmtList ctx j ss)
  | [], j, _ => by
    rw [stmtList]
    exact .pure fun _ => .nil
  | s :: rest, j, h => by
    obtain ⟨hs, hrest⟩ := allSound_append.mp h
    have hlist := typed_stmtList top _ rest j hrest
    have hboth : Ensures ctx
        (fun given cs => Typed ctx given (stmtsAfter ctx.analysis top W (s :: rest))
        (stmtPieces (s :: rest)) (statementEffects cs)) (do
          let c ← stmt ctx j s
          let cs ← stmtList ctx j rest
          return c :: cs) :=
      (typed_stmt top W s j hs).bind fun c => hlist.bind fun cs => .pure fun _ hcs hc =>
        (hc.mono (subset_stmtsAfter top rest)).append hcs
    cases s with
    | function f =>
      rw [stmtList]
      exact hlist.mono fun _ cs hcs => hcs.leftOut <| show ∀ p ∈ [Piece.declared f],
        p.Known ctx _ from List.forall_mem_singleton.mpr (declares_of_sites hs)
    | empty span =>
      rw [stmtList]
      exact hlist
    | _ => simpa only [stmtList] using hboth

theorem typed_clauseList (W : Set VariableId) : ∀ (cs : List SwitchClause) (j : Jumps) (slot : Nat),
    AllSound ctx.analysis (clauseTypeSites ctx.analysis W cs) →
      Ensures ctx (fun given cs' => Typed ctx given W (clausePieces cs) (clauseEffects cs'))
        (clauseList ctx j slot cs)
  | [], j, slot, _ => by
    rw [clauseList]
    exact .pure fun _ => .nil
  | .mk _ none body :: rest, j, slot, h => by
    obtain ⟨-, h⟩ := allSound_append.mp h
    obtain ⟨hbody, hrest⟩ := allSound_append.mp h
    rw [clauseList]
    exact (typed_inner (typed_stmtList false W body j hbody)).bind fun b =>
      (typed_clauseList W rest j slot hrest).bind fun _ =>
      .pure fun _ hcs hb => hb.append hcs
  | .mk _ (some test) body :: rest, j, slot, h => by
    obtain ⟨htest, h⟩ := allSound_append.mp h
    obtain ⟨hbody, hrest⟩ := allSound_append.mp h
    rw [clauseList]
    refine (typed_expr W test htest).bind fun t =>
      (typed_inner (typed_stmtList false W body j hbody)).bind fun b =>
      (typed_clauseList W rest j slot hrest).bind fun _ => .pure fun given hcs hb ht => ?_
    refine Typed.append ?_ (hb.append hcs)
    -- The test compares the slot of the `switch`, which takes any value, with what the expression
    -- yields.
    rw [effects_inRep, effects_binary]
    have hslot : Typed ctx given W [] [.read (.slot .boxed slot)] :=
      .plain (List.forall_mem_singleton.mpr
        (permitted_of_not_isTyped (x := .slot .boxed _) fun h => h rfl).1)
    exact hslot.append ht.2

theorem typed_block (W : Set VariableId) : ∀ (b : Block) (j : Jumps),
    AllSound ctx.analysis (b.typeSites ctx.analysis W) →
      Ensures ctx (fun given c => Typed ctx given W b.pieces c.effects) (block ctx j b)
  | .mk _ body, j, h => by
    rw [block]
    exact (typed_inner (typed_stmtList false W body j h)).bind fun _ => .pure fun _ hcs => hcs

theorem typed_handler (W : Set VariableId) : ∀ (h : Handler) (j : Jumps) (body : StatementCode),
    AllSound ctx.analysis (h.typeSites ctx.analysis W) →
      Ensures ctx (fun given c => ∀ ps, Typed ctx given W ps body.effects →
        Typed ctx given W (ps ++ h.pieces) c.effects) (handler ctx j body h)
  | .mk _ param b, j, body, h => by
    obtain ⟨hparam, hb⟩ := allSound_cons.mp h
    rw [handler]
    refine (ensures_named hparam.1).bind fun acc => (typed_block W b j hb).bind fun c =>
      .pure fun given hc hacc ps hbody => hbody.append ?_
    have hcaught : Typed ctx given W [.caught param] (acc.effects ++ acc.binding.writes .any) :=
      ⟨List.forall_mem_append.mpr ⟨hacc.2.permitted_effects,
        hacc.2.permitted_writes List.mem_cons_self
        (fun _ => .caught hacc.1) nofun⟩, List.forall_mem_singleton.mpr hparam⟩
    have hall := hcaught.append hc
    rw [List.append_assoc] at hall
    exact hall

/-- The effects of a statement come from its pieces. -/
theorem typed_stmt (top : Bool) (W : Set VariableId) : ∀ (s : Stmt) (j : Jumps),
    AllSound ctx.analysis (s.typeSites ctx.analysis top W) →
      Ensures ctx (fun given c => Typed ctx given (s.after ctx.analysis top W) s.pieces c.effects)
        (stmt ctx j s)
  | .expression _ _, _, h => typed_expression h
  | .block b, j, h => typed_block W b j h
  | .empty _, _, _ | .debugger _, _, _ => .pure fun _ => .nil
  | .function _, _, h => .pure fun _ => ⟨nofun, List.forall_mem_singleton.mpr (declares_of_sites h)⟩
  | .declaration _ ds, _, h =>
    (typed_declaratorList top W ds h).bind fun _ => .pure fun _ hcs => hcs
  | .ret _ _, _, h => typed_ret h
  | .brk _ _, _, _ | .cont _ _, _, _ =>
    (Ensures.of_steady (steady_jump _)).bind fun _ => .pure fun _ _ => .nil
  | .labeled _ _ body, _, h => typed_labeled fun k => typed_within (typed_stmt false W body k h)
  | .conditional _ _ consequent none, j, h => by
    obtain ⟨htest, hc⟩ := allSound_append.mp h
    exact typed_conditional htest (typed_within (typed_stmt false W consequent j hc)) nofun
  | .conditional _ _ consequent (some alternate), j, h => by
    obtain ⟨htest, h⟩ := allSound_append.mp h
    obtain ⟨hc, ha⟩ := allSound_append.mp h
    refine typed_conditional htest (typed_within (typed_stmt false W consequent j hc)) ?_
    rintro _ ⟨⟩
    exact typed_within (typed_stmt false W alternate j ha)
  | .switch _ _ clauses, j, h =>
    typed_switch h fun hcs slot => typed_clauseList W clauses (j.enter .switch) slot hcs
  | .throw _ _, _, h => typed_throw h
  | .tryCatch _ b none none, j, h =>
    typed_tryCatch (typed_block W b j (allSound_append.mp h).1) nofun nofun
  | .tryCatch _ b (some handler) none, j, h => by
    obtain ⟨hb, h⟩ := allSound_append.mp h
    refine typed_tryCatch (typed_block W b j hb) ?_ nofun
    rintro _ ⟨⟩ body
    exact typed_handler W handler j body (allSound_append.mp h).1
  | .tryCatch _ b none (some f), j, h => by
    obtain ⟨hb, h⟩ := allSound_append.mp h
    refine typed_tryCatch (typed_block W b j hb) nofun ?_
    rintro _ ⟨⟩
    exact typed_block W f j (allSound_append.mp h).2
  | .tryCatch _ b (some handler) (some f), j, h => by
    obtain ⟨hb, h⟩ := allSound_append.mp h
    obtain ⟨hh, hf⟩ := allSound_append.mp h
    refine typed_tryCatch (typed_block W b j hb) ?_ ?_ <;> rintro _ ⟨⟩
    · exact fun body => typed_handler W handler j body hh
    · exact typed_block W f j hf
  | .while _ _ body, j, h =>
    typed_while h fun hb => typed_within (typed_stmt false W body (j.enter .loop) hb)
  | .doWhile _ _ body, j, h =>
    typed_doWhile h fun hb => typed_within (typed_stmt false W body (j.enter .loop) hb)
  | .for _ _ _ _ body, j, h =>
    typed_for h fun hb => typed_within (typed_stmt false _ body (j.enter .loop) hb)
  | .forIn _ _ _ body, j, h =>
    typed_forIn h fun hb => typed_within (typed_stmt false W body (j.enter .loop) hb)
  | .with _ _ _ body, j, h => typed_with h fun hb => typed_within (typed_stmt false W body j hb)

end

/-! ### Entries -/

/-- The functions that a body declares may be declared as they are. -/
def DeclaresSoundly (a : Analysis) (ps : List Piece) : Prop :=
  ∀ f, .declared f ∈ ps → f.Sound a

/-- The effects of the entry of a body are permitted: no variable was written before. -/
def PermittedEntry (ctx : BodyContext) (given : BodyState) (ps : List Piece)
    (cs : List StatementCode) : Prop :=
  DeclaresSoundly ctx.analysis ps → ∀ e ∈ statementEffects cs, e.Permitted ctx given ∅ ps

namespace PermittedEntry

theorem nil : PermittedEntry ctx given ps [] :=
  fun _ => List.forall_mem_nil _

theorem append {cs cs' : List StatementCode} (h : PermittedEntry ctx given ps cs)
    (h' : PermittedEntry ctx given ps cs') : PermittedEntry ctx given ps (cs ++ cs') := by
  intro hps
  rw [statementEffects_append]
  exact List.forall_mem_append.mpr ⟨h hps, h' hps⟩

/-- A write of a name that is kept in no typed slot. -/
theorem store (hscopes : ∀ b ∈ acc.scopes, ¬ b.storage.IsTyped)
    (hbinding : ¬ acc.binding.storage.IsTyped) (hc : ∀ e ∈ c.effects, e.Permitted ctx given ∅ ps) :
    PermittedEntry ctx given ps [(acc.store c).effect] := by
  intro _
  rw [statementEffects, statementEffects, List.append_nil]
  exact permitted_store hscopes (fun ht => absurd ht hbinding) hc

end PermittedEntry

/-- The code that binds the own name of a function. -/
theorem permitted_selfEntry (ps : List Piece) (h : ctx.analysis.ReceivesOnCall ctx.id) :
    Ensures ctx (fun given cs => PermittedEntry ctx given ps cs) (selfEntry ctx) := by
  unfold selfEntry
  split
  · next v hv =>
    obtain ⟨hconcrete, hkind⟩ := h.selfBinding v hv
    have hscope : (ctx.analysis.var v).kind ≠ .withScope := by
      rw [hkind]
      decide
    refine (Ensures.of_steady (steady_access v)).sound.bind fun acc => .pure fun given hacc => ?_
    obtain ⟨hscopes, hbinding⟩ := not_isTyped_of_access hacc.1 hconcrete hscope hacc.2.1
    refine .store (fun b hb => ?_) hbinding (List.forall_mem_nil _)
    rw [show acc.initializer.scopes = [] from hscopes] at hb
    cases hb
  · exact .pure fun _ => .nil

/-- The code that makes a declared function. -/
theorem permitted_declaredFunction {f : Func} {name : Identifier} {code : FunctionCode}
    (hname : f.identifier? = some name) (hp : .declared f ∈ ps) :
    Ensures ctx (fun given c => func ctx.analysis f = .ok code → PermittedEntry ctx given ps [c])
      (declaredFunction ctx name code) := by
  refine (Ensures.of_steady (steady_identifier name)).sound.bind fun acc =>
    .pure fun given hacc hcode hps => ?_
  have hreceives := (hps f hp).receives name hname
  have hnamed := named_of_identifier hacc.1 hreceives.1 hacc.2.1
  refine PermittedEntry.store hnamed.scopes (hnamed.not_isTyped hreceives) ?_ hps
  exact List.forall_mem_singleton.mpr ⟨_, hp, f, rfl, hcode⟩

/-- The functions that some pieces declare are declared by a body. -/
def DeclaredIn (ps qs : List Piece) : Prop :=
  ∀ f, .declared f ∈ qs → .declared f ∈ ps

theorem DeclaredIn.tail {p : Piece} {qs : List Piece} (h : DeclaredIn ps (p :: qs)) :
    DeclaredIn ps qs :=
  fun f hf => h f (List.mem_cons_of_mem _ hf)

theorem DeclaredIn.append {qs rs : List Piece} (h : DeclaredIn ps (qs ++ rs)) :
    DeclaredIn ps qs ∧ DeclaredIn ps rs :=
  ⟨fun f hf => h f (List.mem_append_left _ hf), fun f hf => h f (List.mem_append_right _ hf)⟩

section

variable {x y z : Compile (List StatementCode)}

/-- The code that makes functions, after other code of this kind. -/
theorem permitted_both (hx : Ensures ctx (fun given cs => PermittedEntry ctx given ps cs) x)
    (hy : Ensures ctx (fun given cs => PermittedEntry ctx given ps cs) y) :
    Ensures ctx (fun given cs => PermittedEntry ctx given ps cs) (do
      let cs ← x
      return cs ++ (← y)) :=
  hx.bind fun _ => hy.bind fun _ => .pure fun _ hy hx => hx.append hy

theorem permitted_three (hx : Ensures ctx (fun given cs => PermittedEntry ctx given ps cs) x)
    (hy : Ensures ctx (fun given cs => PermittedEntry ctx given ps cs) y)
    (hz : Ensures ctx (fun given cs => PermittedEntry ctx given ps cs) z) :
    Ensures ctx (fun given cs => PermittedEntry ctx given ps cs) (do
      let first ← x
      let second ← y
      let third ← z
      return first ++ second ++ third) :=
  hx.bind fun _ => hy.bind fun _ => hz.bind fun _ => .pure fun _ hz hy hx =>
    (hx.append hy).append hz

theorem permitted_none :
    Ensures ctx (fun given cs => PermittedEntry ctx given ps cs)
      (pure [] : Compile (List StatementCode)) :=
  .pure fun _ => .nil

end

mutual

theorem permitted_hoistList : ∀ ss : List Stmt, DeclaredIn ps (stmtPieces ss) →
    Ensures ctx (fun given cs => PermittedEntry ctx given ps cs) (hoistList ctx ss)
  | [], _ => permitted_none
  | s :: rest, h =>
    permitted_both (permitted_hoist s h.append.1) (permitted_hoistList rest h.append.2)
termination_by structural x => x

theorem permitted_hoistBlock : ∀ b : Block, DeclaredIn ps b.pieces →
    Ensures ctx (fun given cs => PermittedEntry ctx given ps cs) (hoistBlock ctx b)
  | .mk _ body, h => permitted_hoistList body h
termination_by structural x => x

theorem permitted_hoistClauses : ∀ cs : List SwitchClause, DeclaredIn ps (clausePieces cs) →
    Ensures ctx (fun given cs => PermittedEntry ctx given ps cs) (hoistClauses ctx cs)
  | [], _ => permitted_none
  | .mk _ _ body :: rest, h =>
    permitted_both (permitted_hoistList body h.append.2.append.1)
      (permitted_hoistClauses rest h.append.2.append.2)
termination_by structural x => x

/-- The functions that are made at the entry of a body are those that its pieces declare. -/
theorem permitted_hoist : ∀ s : Stmt, DeclaredIn ps s.pieces →
    Ensures ctx (fun given cs => PermittedEntry ctx given ps cs) (hoist ctx s)
  | .function f, h => by
    have hp := h f List.mem_cons_self
    rw [hoist_function]
    split
    · next name hname =>
      refine Ensures.bind (R := fun _ g => func ctx.analysis f = .ok g) (ensures_lift _)
        fun code => ?_
      exact (permitted_declaredFunction hname hp).bind fun c => .pure fun given hc hcode => hc hcode
    · exact permitted_none
  | .block b, h => permitted_hoistBlock b h
  | .labeled _ _ body, h => permitted_hoist body h
  | .while _ _ body, h => permitted_hoist body h.append.2
  | .doWhile _ _ body, h => permitted_hoist body h.append.1
  | .with _ _ object body, h =>
    permitted_hoist body
      (DeclaredIn.append (h.tail : DeclaredIn ps (object.pieces ++ body.pieces))).2
  | .conditional _ _ c none, h => permitted_hoist c h.append.2
  | .conditional _ _ c (some a), h =>
    permitted_both (permitted_hoist c h.append.2.append.1) (permitted_hoist a h.append.2.append.2)
  | .for _ _ _ _ body, h => permitted_hoist body h.append.2.append.2.append.2
  | .forIn _ _ _ body, h => permitted_hoist body h.append.2.append.2
  | .switch _ _ clauses, h => permitted_hoistClauses clauses h.append.2
  | .tryCatch _ b none none, h =>
    permitted_three (permitted_hoistBlock b h.append.1) permitted_none permitted_none
  | .tryCatch _ b none (some f), h =>
    permitted_three (permitted_hoistBlock b h.append.1) permitted_none
      (permitted_hoistBlock f h.append.2.append.2)
  | .tryCatch _ b (some (.mk _ _ hb)) none, h =>
    permitted_three (permitted_hoistBlock b h.append.1)
      (permitted_hoistBlock hb h.append.2.append.1.tail) permitted_none
  | .tryCatch _ b (some (.mk _ _ hb)) (some f), h =>
    permitted_three (permitted_hoistBlock b h.append.1)
      (permitted_hoistBlock hb h.append.2.append.1.tail)
      (permitted_hoistBlock f h.append.2.append.2)
  | .expression .., _ | .empty _, _ | .debugger _, _ | .ret .., _ | .brk .., _ | .cont .., _
  | .throw .., _ | .declaration .., _ => permitted_none
termination_by structural x => x

end

/-! ### Bodies -/

/-- The effects of the statements of a body and of its entry. -/
structure TypedBody (ctx : BodyContext) (statements : List Stmt) (given : BodyState)
    (r : List StatementCode × List StatementCode) : Prop where
  body : Typed ctx given (stmtsAfter ctx.analysis true ∅ statements)
    (bodyPieces ctx.isProgram statements) (statementEffects r.1)
  entry : ∀ e ∈ statementEffects r.2, e.Permitted ctx given ∅ (bodyPieces ctx.isProgram statements)

section

variable {body : List Stmt}
  (hsites : AllSound ctx.analysis (stmtTypeSites ctx.analysis true ∅ body))
include hsites

theorem typed_functionParts (hprogram : ctx.isProgram = false)
    (hcall : ctx.analysis.ReceivesOnCall ctx.id) :
    Ensures ctx (TypedBody ctx body) (functionParts ctx body) := by
  have hpieces : bodyPieces ctx.isProgram body = .self :: stmtPieces body := by
    rw [hprogram]
    rfl
  refine (typed_stmtList true ∅ body .none hsites).bind fun statements =>
    (permitted_selfEntry (.self :: stmtPieces body) hcall).bind fun self =>
    (permitted_hoistList body fun f hf => List.mem_cons_of_mem .self hf).bind fun declared =>
      .pure fun given hdeclared hself hstatements => ?_
  have hall : Typed ctx given _ (.self :: stmtPieces body) (statementEffects statements) :=
    hstatements.cons hcall
  have hentry := (hself.append hdeclared) fun f hf => hall.pieces (.declared f) hf
  rw [← hpieces] at hall hentry
  exact ⟨hall, hentry⟩

theorem typed_scriptParts (hprogram : ctx.isProgram = true) :
    Ensures ctx (TypedBody ctx body) (scriptParts ctx body) := by
  have hpieces : bodyPieces ctx.isProgram body = stmtPieces body := by
    rw [hprogram]
    rfl
  refine (typed_stmtList true ∅ body .none hsites).bind fun statements =>
    (permitted_hoistList body fun f hf => hf).bind fun declared =>
      .pure fun given hdeclared hall => ?_
  have hentry := hdeclared fun f hf => hall.pieces (.declared f) hf
  rw [← hpieces] at hall hentry
  exact ⟨hall, hentry⟩

end

end Compile

end ScriptEngine
