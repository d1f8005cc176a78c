import ScriptEngine.Proofs.Analysis.Marking

/-!
# Types in the end

A pass over a script in which every write is settled changes no type.  So for the types in the end,
what a pass finds for an expression is the type of the expression.

## Main definitions

* `Infer.Finds` : a part of a pass whose writes are settled changes nothing, and finds a type.

## Main statements

* `Infer.finds_expr` : what a pass finds for an expression.
-/

namespace ScriptEngine

/-- The types of the variables. -/
def Analysis.types (a : Analysis) : Array ValueType :=
  a.vars.map (·.valueType)

namespace Infer

variable {a : Analysis} {α β : Type} {x : Infer α} {f : α → Infer β} {t : α} {u : β}
  {sites sites' : List TypeSite}

/-- If the writes at some sites are settled, a part of a pass changes no type and finds
something. -/
def Finds (a : Analysis) (x : Infer α) (t : α) (sites : List TypeSite) : Prop :=
  SitesSettled a sites → ∀ us, x ⟨a.types, us⟩ = (t, ⟨a.types, us⟩)

namespace Finds

theorem pure (t : α) : Finds a (pure t : Infer α) t [] :=
  fun _ _ => rfl

theorem bind (h : Finds a x t sites) (hf : Finds a (f t) u sites') :
    Finds a (x >>= f) u (sites ++ sites') := by
  intro hsites us
  obtain ⟨hx, hy⟩ := sitesSettled_append.mp hsites
  change f (x ⟨a.types, us⟩).1 (x ⟨a.types, us⟩).2 = _
  rw [h hx us]
  exact hf hy us

theorem map (h : Finds a x t sites) (g : α → β) :
    Finds a (x >>= fun t => Pure.pure (g t)) (g t) sites := by
  have hbind := h.bind (f := fun t => Pure.pure (g t)) (Finds.pure (g t))
  rwa [List.append_nil] at hbind

theorem cons {site : TypeSite} (h : Finds a x t sites) : Finds a x t (site :: sites) :=
  fun hsites => h (sitesSettled_cons.mp hsites).2

end Finds

section Names

variable (ha : ∀ x ∈ a.vars, x.valueType ≠ .unset)
include ha

/-- The variable of a name has its type. -/
theorem getElem?_types {i : Identifier} {v : VariableId} (hi : a.reference? i = some v) :
    a.types[v]?.getD .unknown = a.nameType i ∧ a.types[v]?.getD .unknown ≠ .unset := by
  unfold Analysis.nameType Analysis.types
  rw [hi, Option.bind_some, Array.getElem?_map]
  cases hv : a.vars[v]? with
  | none => exact ⟨rfl, nofun⟩
  | some x => exact ⟨rfl, ha x (Array.mem_of_getElem? hv)⟩

theorem finds_readName (W : Set VariableId) (i : Identifier) :
    Finds a (readName a.reference? i) (a.nameType i) [.read W i] := by
  intro _ us
  unfold readName
  cases hi : a.reference? i with
  | none =>
    rw [nameType_of_none hi]
    rfl
  | some v =>
    obtain ⟨htype, hset⟩ := getElem?_types ha hi
    dsimp only
    rw [read_eq, if_neg hset, htype]

theorem finds_writeName (i : Identifier) (t : ValueType) (always : Bool) :
    Finds a (writeName a.reference? i t always) () [.write i t] := by
  intro hsites us
  have hwrite : (TypeSite.write i t).Settled a := (sitesSettled_cons.mp hsites).1
  unfold writeName
  cases hi : a.reference? i with
  | none => rfl
  | some v =>
    dsimp only
    rw [write_eq, if_neg (getElem?_types ha hi).2]
    refine Prod.ext rfl ?_
    have htypes : a.types[v]? = a.vars[v]?.map (·.valueType) := Array.getElem?_map
    cases hx : a.vars[v]? with
    | none => exact set_of_none (htypes.trans (congrArg _ hx))
    | some x =>
      have htype : a.types[v]? = some x.valueType := htypes.trans (congrArg _ hx)
      refine set_of_eq ?_
      change a.types[v]? = some ((a.types[v]?.getD .unknown).merge t)
      rw [htype, Option.getD_some, hwrite v x hi hx]

/-- An expression statement, which may be a plain assignment to a name. -/
theorem Finds.statement {W : Set VariableId} {e : Expr}
    (h : Finds a (expr a.reference? e) (e.type a) (e.typeSites a W))
    (hassigned : ∀ (span : Span) (i : Identifier) (value : Expr),
      e = .assign span .plain (.identifier i) value →
      Finds a (expr a.reference? value) (value.type a) (value.typeSites a W)) (top : Bool) :
    Finds a (statement a.reference? top e) () (e.typeSites a W) := by
  unfold Infer.statement
  split
  · next span i value =>
    exact (hassigned span i value rfl).bind (finds_writeName ha i (value.type a) top)
  · exact h.map _

end Names

mutual

/-- What a pass finds for an expression is its type. -/
theorem finds_expr (ha : ∀ x ∈ a.vars, x.valueType ≠ .unset) (W : Set VariableId) : ∀ e : Expr,
    Finds a (expr a.reference? e) (e.type a) (e.typeSites a W)
  | .literal .. | .this _ => .pure _
  | .identifier i => finds_readName ha W i
  | .array _ elements => (finds_elementList ha W elements).map _
  | .object _ properties => (finds_propertyList ha W properties).map _
  | .function f => (finds_func ha f).map _
  | .unary _ op argument => (finds_expr ha W argument).map fun _ => op.resultType
  | .update _ _ (.identifier i) _ =>
    (finds_readName ha W i).bind ((finds_writeName ha i .double false).map _)
  | .update _ _ (.member m) _ => (finds_member ha W m).map _
  | .binary _ _ left right => (finds_expr ha W left).bind ((finds_expr ha W right).map _)
  | .logical _ _ left right => (finds_expr ha W left).bind ((finds_expr ha W right).map _)
  | .assign _ .plain (.identifier i) value =>
    (finds_expr ha W value).bind ((finds_writeName ha i (value.type a) false).map fun _ =>
      value.type a)
  | .assign _ (.compound op) (.identifier i) value =>
    (finds_readName ha W i).bind ((finds_expr ha W value).bind
      ((finds_writeName ha i (op.resultType (a.nameType i) (value.type a)) false).map _))
  | .assign _ .plain (.member m) value => (finds_member ha W m).bind ((finds_expr ha W value).map _)
  | .assign _ (.compound op) (.member m) value =>
    (finds_member ha W m).bind ((finds_expr ha W value).map fun t => op.resultType .unknown t)
  | .conditional _ test consequent alternate =>
    (finds_expr ha W test).bind
      ((finds_expr ha W consequent).bind ((finds_expr ha W alternate).map _))
  | .call _ callee arguments =>
    (finds_expr ha W callee).bind ((finds_exprList ha W arguments .unknown).map _)
  | .construct _ callee arguments =>
    (finds_expr ha W callee).bind ((finds_exprList ha W arguments .unknown).map _)
  | .sequence _ expressions => finds_exprList ha W expressions .unknown
  | .member m => (finds_member ha W m).map _

theorem finds_exprList (ha : ∀ x ∈ a.vars, x.valueType ≠ .unset) (W : Set VariableId) :
    ∀ (es : List Expr) (last : ValueType),
      Finds a (exprList a.reference? last es) (lastType a last es)
      (exprTypeSites a W es)
  | [], _ => .pure _
  | e :: rest, _ => (finds_expr ha W e).bind (finds_exprList ha W rest (e.type a))

theorem finds_elementList (ha : ∀ x ∈ a.vars, x.valueType ≠ .unset) (W : Set VariableId) :
    ∀ es : List (Option Expr), Finds a (elementList a.reference? es) () (elementTypeSites a W es)
  | [] => .pure _
  | none :: rest => finds_elementList ha W rest
  | some e :: rest => (finds_expr ha W e).bind (finds_elementList ha W rest)

theorem finds_propertyList (ha : ∀ x ∈ a.vars, x.valueType ≠ .unset) (W : Set VariableId) :
    ∀ ps : List Property, Finds a (propertyList a.reference? ps) () (propertyTypeSites a W ps)
  | [] => .pure _
  | .mk _ _ value :: rest => (finds_expr ha W value).bind (finds_propertyList ha W rest)

theorem finds_member (ha : ∀ x ∈ a.vars, x.valueType ≠ .unset) (W : Set VariableId) : ∀ m : Member,
    Finds a (member a.reference? m) () (m.typeSites a W)
  | .named _ object _ => (finds_expr ha W object).map _
  | .computed _ object property => (finds_expr ha W object).bind ((finds_expr ha W property).map _)

/-- The value of an expression that is a plain assignment to a name. -/
theorem finds_assigned (ha : ∀ x ∈ a.vars, x.valueType ≠ .unset) (W : Set VariableId) :
    ∀ (e : Expr) (span : Span) (i : Identifier) (value : Expr),
      e = .assign span .plain (.identifier i) value →
      Finds a (expr a.reference? value) (value.type a) (value.typeSites a W)
  | .assign _ .plain (.identifier _) value => by
    rintro _ _ _ ⟨⟩
    exact finds_expr ha W value
  | .assign _ .plain (.member _) _ | .assign _ (.compound _) _ _ | .literal .. | .identifier _
  | .this _ | .array .. | .object .. | .function _ | .unary .. | .update .. | .binary ..
  | .logical .. | .conditional .. | .call .. | .construct .. | .sequence .. | .member _ => nofun

theorem finds_func (ha : ∀ x ∈ a.vars, x.valueType ≠ .unset) : ∀ f : Func,
    Finds a (func a.reference? f) () (f.typeSites a)
  | .mk _ _ _ _ _ _ _ body => (finds_stmtList ha true ∅ body).cons

theorem finds_stmtList (ha : ∀ x ∈ a.vars, x.valueType ≠ .unset) (top : Bool) (W : Set VariableId) :
    ∀ ss : List Stmt, Finds a (stmtList a.reference? top ss) () (stmtTypeSites a top W ss)
  | [] => .pure _
  | s :: rest => (finds_stmt ha top W s).bind (finds_stmtList ha top _ rest)

theorem finds_declaratorList (ha : ∀ x ∈ a.vars, x.valueType ≠ .unset) (top : Bool)
    (W : Set VariableId) :
    ∀ ds : List Declarator,
      Finds a (declaratorList a.reference? top ds) () (declaratorTypeSites a top W ds)
  | [] => .pure _
  | .mk _ _ none :: rest => finds_declaratorList ha top W rest
  | .mk _ name (some init) :: rest =>
    (finds_expr ha W init).bind ((finds_writeName ha name (init.type a) top).bind
      (finds_declaratorList ha top (a.written top W name) rest))

theorem finds_clauseList (ha : ∀ x ∈ a.vars, x.valueType ≠ .unset) (W : Set VariableId) :
    ∀ cs : List SwitchClause, Finds a (clauseList a.reference? cs) () (clauseTypeSites a W cs)
  | [] => .pure _
  | .mk _ none body :: rest => (finds_stmtList ha false W body).bind (finds_clauseList ha W rest)
  | .mk _ (some test) body :: rest =>
    (finds_expr ha W test).bind ((finds_stmtList ha false W body).bind (finds_clauseList ha W rest))

theorem finds_block (ha : ∀ x ∈ a.vars, x.valueType ≠ .unset) (W : Set VariableId) : ∀ b : Block,
    Finds a (block a.reference? b) () (b.typeSites a W)
  | .mk _ body => finds_stmtList ha false W body

theorem finds_option (ha : ∀ x ∈ a.vars, x.valueType ≠ .unset) (W : Set VariableId) :
    ∀ e : Option Expr,
    Finds a (option a.reference? e) () (optionTypeSites a W e)
  | none => .pure _
  | some e => (finds_expr ha W e).map _

theorem finds_forInit (ha : ∀ x ∈ a.vars, x.valueType ≠ .unset) (top : Bool) (W : Set VariableId) :
    ∀ init : ForInit, Finds a (forInit a.reference? top init) () (init.typeSites a top W)
  | .nothing => .pure _
  | .declaration _ ds => finds_declaratorList ha top W ds
  | .expression e => (finds_expr ha W e).statement ha (finds_assigned ha W e) top

theorem finds_forInTarget (ha : ∀ x ∈ a.vars, x.valueType ≠ .unset) (W : Set VariableId) :
    ∀ left : ForInTarget, Finds a (forInTarget a.reference? left) () (left.typeSites a W)
  | .declaration i | .target (.identifier i) => finds_writeName ha i .string false
  | .target (.member m) => finds_member ha W m

theorem finds_stmt (ha : ∀ x ∈ a.vars, x.valueType ≠ .unset) (top : Bool)
    (W : Set VariableId) : ∀ s : Stmt,
    Finds a (stmt a.reference? top s) () (s.typeSites a top W)
  | .empty _ | .debugger _ | .brk .. | .cont .. | .ret _ none => .pure _
  | .expression _ e => by
    rw [stmt_expression]
    exact (finds_expr ha W e).statement ha (finds_assigned ha W e) top
  | .block b => finds_block ha W b
  | .ret _ (some e) => (finds_expr ha W e).map _
  | .throw _ e => (finds_expr ha W e).map _
  | .labeled _ _ body => finds_stmt ha false W body
  | .conditional _ test consequent none =>
    (finds_expr ha W test).bind (finds_stmt ha false W consequent)
  | .conditional _ test consequent (some alternate) =>
    (finds_expr ha W test).bind
      ((finds_stmt ha false W consequent).bind (finds_stmt ha false W alternate))
  | .switch _ discriminant clauses =>
    (finds_expr ha W discriminant).bind (finds_clauseList ha W clauses)
  | .tryCatch _ b none none => (finds_block ha W b).bind (.pure ())
  | .tryCatch _ b none (some f) => (finds_block ha W b).bind (finds_block ha W f)
  | .tryCatch _ b (some (.mk _ _ hb)) none =>
    (finds_block ha W b).bind ((finds_block ha W hb).cons.bind (.pure ()))
  | .tryCatch _ b (some (.mk _ _ hb)) (some f) =>
    (finds_block ha W b).bind ((finds_block ha W hb).cons.bind (finds_block ha W f))
  | .while _ test body => (finds_expr ha W test).bind (finds_stmt ha false W body)
  | .doWhile _ test body => (finds_stmt ha false W body).bind ((finds_expr ha W test).map _)
  | .for _ init test update body => by
    rw [stmt_for]
    exact (finds_forInit ha top W init).bind ((finds_option ha _ test).bind
      ((finds_stmt ha false _ body).bind (finds_option ha _ update)))
  | .forIn _ left right body => (finds_expr ha W right).bind
    ((finds_forInTarget ha W left).bind (finds_stmt ha false W body))
  | .with _ _ object body => ((finds_expr ha W object).bind (finds_stmt ha false W body)).cons
  | .declaration _ ds => finds_declaratorList ha top W ds
  | .function f => fun h => finds_func ha f (sitesSettled_append.mp h).2

end

end Infer

end ScriptEngine
