import ScriptEngine.Proofs.Code.Constants
import ScriptEngine.Proofs.Compile.Stability

/-!
# Constants of compiled scripts

The constants that compilation makes are those of the literals of a script, besides `undefined`,
`true` and the names of properties: none of them is an object.

## Main definitions

* `Compile.Gives` : what holds of the results of compilation.

## Main statements

* `Program.primitive_of_compile` : no constant of a compiled script is an object.
-/

namespace ScriptEngine

/-! ### Operators -/

theorem Code.Primitive.convert {ρ : Rep} {c : Code ρ} (h : c.Primitive) (σ : Rep) :
    (c.convert σ).Primitive := by
  unfold Code.convert
  split
  · rename_i heq
    subst heq
    exact h
  · exact h

namespace TypedCode.Primitive

variable {c l r : TypedCode}

theorem inRep (h : c.Primitive) (ρ : Rep) : (c.inRep ρ).Primitive :=
  Code.Primitive.convert h ρ

theorem constant {v : Value} (h : v.isObject = false) : (TypedCode.constant v).Primitive := by
  cases v <;> exact h

theorem load (a : Access) (lenient : Bool) : (a.load lenient).Primitive := by
  unfold Access.load
  split <;> exact trivial

theorem store (a : Access) (h : c.Primitive) : (a.store c).Primitive := by
  unfold Access.store
  split
  · exact h.inRep _
  · exact ⟨trivial, h.inRep _⟩

theorem stepCode (op : UpdateOp) (before : Bool) {place : Reference} (h : place.Primitive) :
    (Compile.stepCode op before place).Primitive := by
  unfold Compile.stepCode
  split
  · exact trivial
  · exact h

theorem specializeUnary (op : UnaryOp) (h : c.Primitive) :
    (ScriptEngine.specializeUnary op c).Primitive := by
  cases op
  case typeOf | void => exact h
  all_goals exact h.inRep _

theorem specializeBinary (op : BinaryOp) (hl : l.Primitive) (hr : r.Primitive) :
    (ScriptEngine.specializeBinary op l r).Primitive := by
  have hboth (ρ σ : Rep) : (l.inRep ρ).Primitive ∧ (r.inRep σ).Primitive := ⟨hl.inRep ρ, hr.inRep σ⟩
  unfold ScriptEngine.specializeBinary
  split
  · unfold sumCode
    split <;> exact hboth _ _
  · unfold numericCode
    split <;> exact hboth _ _
  · unfold relationCode
    split <;> exact hboth _ _
  · unfold equalityCode
    split <;> exact hboth _ _
  · exact hboth _ _
  · exact hboth _ _

theorem logicalCode (op : LogicalOp) (hl : l.Primitive) (hr : r.Primitive) :
    (ScriptEngine.logicalCode op l r).Primitive :=
  ⟨hl.inRep _, hr.inRep _⟩

theorem conditionalCode {test : Code .boolean} (h : test.Primitive) (hl : l.Primitive)
    (hr : r.Primitive) : (ScriptEngine.conditionalCode test l r).Primitive :=
  ⟨h, hl.inRep _, hr.inRep _⟩

theorem sequenceCode : ∀ {first : TypedCode} {rest : List TypedCode}, first.Primitive →
    (∀ c ∈ rest, c.Primitive) → (ScriptEngine.sequenceCode first rest).Primitive
  | _, [], h, _ => h
  | _, _ :: _, h, hrest => by
    obtain ⟨hnext, hrest⟩ := List.forall_mem_cons.mp hrest
    exact ⟨h, sequenceCode hnext hrest⟩

end TypedCode.Primitive

theorem Literal.primitive_code (l : Literal) : l.code.Primitive := by
  cases l with
  | regularExpression pattern flags => exact trivial
  | _ => exact .constant rfl

/-! ### Compilation -/

namespace Compile

variable {α β : Type}

/-- Something holds of the results of compilation. -/
def Gives (P : α → Prop) (x : Compile α) : Prop :=
  ∀ ⦃s a s'⦄, x s = .ok (a, s') → P a

namespace Gives

variable {P : α → Prop} {Q : β → Prop}

theorem any (x : Compile α) : Gives (fun _ => True) x :=
  fun _ _ _ _ => trivial

theorem pure {a : α} (h : P a) : Gives P (pure a) := by
  intro s b s' hb
  cases hb
  exact h

theorem throw (e : StaticError) : Gives P (throw e) := by
  intro s b s' hb
  cases hb

theorem bind {x : Compile α} {f : α → Compile β} (hx : Gives P x) (hf : ∀ a, P a → Gives Q (f a)) :
    Gives Q (x >>= f) := by
  intro s b s' h
  change (x s >>= fun p => f p.1 p.2) = _ at h
  cases hs : x s with
  | error e =>
    rw [hs] at h
    cases h
  | ok p =>
    rw [hs] at h
    exact hf p.1 (hx hs) h

/-- Nothing is asked of the first result. -/
theorem after {x : Compile α} {f : α → Compile β} (hf : ∀ a, Gives Q (f a)) : Gives Q (x >>= f) :=
  (any x).bind fun a _ => hf a

theorem lift {x : Except StaticError α} (h : ∀ a, x = .ok a → P a) :
    Gives P (liftM x : Compile α) := by
  intro s b s' hb
  cases x with
  | error e => cases hb
  | ok a =>
    cases hb
    exact h _ rfl

end Gives

theorem gives_selfEntry (ctx : BodyContext) : Gives statementsPrimitive (selfEntry ctx) := by
  unfold selfEntry
  split
  · refine .after fun a => .pure ⟨?_, trivial⟩
    exact TypedCode.Primitive.store _ trivial
  · exact .pure trivial

theorem gives_declaredFunction (ctx : BodyContext) (name : Identifier) {code : FunctionCode}
    (h : code.Primitive) : Gives StatementCode.Primitive (declaredFunction ctx name code) :=
  .after fun _ => .pure (TypedCode.Primitive.store _ h)

theorem gives_withEntry {ctx : BodyContext} (id : NodeId) {object : Expr}
    (h : Gives TypedCode.Primitive (expr ctx object)) :
    Gives TypedCode.Primitive (withEntry ctx id object) := by
  unfold withEntry
  split
  · exact .throw _
  · exact .after fun a => h.bind fun _ h => .pure (.store a (h.inRep _))

mutual

/-- The code of an expression has no objects. -/
theorem gives_expr (ctx : BodyContext) : ∀ e : Expr, Gives TypedCode.Primitive (expr ctx e)
  | .literal _ value => .pure value.primitive_code
  | .identifier i => .after fun a => .pure (.load a false)
  | .this _ => .pure trivial
  | .array _ elements => (gives_elementList ctx elements).bind fun _ h => .pure h
  | .object _ properties => (gives_propertyList ctx properties).bind fun _ h => .pure h
  | .function f => (Gives.lift (primitive_func ctx.analysis f)).bind fun _ h => .pure h
  | .unary _ op argument => by
    have hdynamic : Gives TypedCode.Primitive
        (do return specializeUnary op (← expr ctx argument)) :=
      (gives_expr ctx argument).bind fun _ h => .pure (.specializeUnary op h)
    cases op with
    | delete =>
      cases argument with
      | identifier i => exact .after fun _ => .pure trivial
      | member m => exact (gives_member ctx m).bind fun _ h => .pure h
      | _ => exact hdynamic
    | typeOf =>
      cases argument with
      | identifier i => exact .after fun a => .pure (.specializeUnary .typeOf (.load a true))
      | _ => exact hdynamic
    | _ => exact hdynamic
  | .update _ op t before => (gives_target ctx t).bind fun _ h => .pure (.stepCode op before h)
  | .binary _ op left right =>
    (gives_expr ctx left).bind fun _ hl => (gives_expr ctx right).bind fun _ hr =>
      .pure (.specializeBinary op hl hr)
  | .logical _ op left right =>
    (gives_expr ctx left).bind fun _ hl => (gives_expr ctx right).bind fun _ hr =>
      .pure (.logicalCode op hl hr)
  | .assign _ .plain (.identifier i) value =>
    .after fun a => (gives_expr ctx value).bind fun _ h => .pure (h.store a)
  | .assign _ .plain (.member m) value =>
    (gives_member ctx m).bind fun _ hm => (gives_expr ctx value).bind fun _ h =>
      .pure ⟨hm, h.inRep _⟩
  | .assign _ (.compound op) (.identifier i) value => by
    refine .after fun a => (gives_expr ctx value).bind fun v h => ?_
    split
    · exact .pure (.store a (.specializeBinary op (.load a false) h))
    · exact .pure ⟨trivial, h.inRep _⟩
  | .assign _ (.compound op) (.member m) value =>
    (gives_expr ctx value).bind fun _ h => (gives_member ctx m).bind fun _ hm =>
      .pure ⟨hm, h.inRep _⟩
  | .conditional _ test consequent alternate =>
    (gives_expr ctx test).bind fun _ ht => (gives_expr ctx consequent).bind fun _ hc =>
      (gives_expr ctx alternate).bind fun _ ha => .pure (.conditionalCode (ht.inRep _) hc ha)
  | .call _ callee arguments => by
    have hplain : Gives TypedCode.Primitive (do
        let f ← expr ctx callee
        return ⟨.boxed, .call (f.inRep .boxed) (← exprList ctx arguments)⟩) :=
      (gives_expr ctx callee).bind fun _ h => (gives_exprList ctx arguments).bind fun _ hs =>
        .pure ⟨h.inRep _, hs⟩
    cases callee with
    | member m =>
      exact (gives_member ctx m).bind fun _ hm => (gives_exprList ctx arguments).bind fun _ hs =>
        .pure ⟨hm, hs⟩
    | identifier i =>
      exact .after fun _ => (gives_exprList ctx arguments).bind fun _ hs => .pure ⟨trivial, hs⟩
    | _ => exact hplain
  | .construct _ callee arguments =>
    (gives_expr ctx callee).bind fun _ h => (gives_exprList ctx arguments).bind fun _ hs =>
      .pure ⟨h.inRep _, hs⟩
  | .sequence _ expressions => by
    refine (gives_typedList ctx expressions).bind fun cs h => ?_
    cases cs with
    | nil => exact .pure (.constant rfl)
    | cons first rest =>
      obtain ⟨hfirst, hrest⟩ := List.forall_mem_cons.mp h
      exact .pure (.sequenceCode hfirst hrest)
  | .member m => (gives_member ctx m).bind fun _ h => .pure h
termination_by structural x => x

theorem gives_typedList (ctx : BodyContext) : ∀ es : List Expr,
    Gives (fun cs => ∀ c ∈ cs, c.Primitive) (typedList ctx es)
  | [] => .pure nofun
  | e :: rest =>
    (gives_expr ctx e).bind fun _ h => (gives_typedList ctx rest).bind fun _ hs =>
      .pure (List.forall_mem_cons.mpr ⟨h, hs⟩)
termination_by structural x => x

theorem gives_exprList (ctx : BodyContext) : ∀ es : List Expr, Gives listPrimitive (exprList ctx es)
  | [] => .pure trivial
  | e :: rest =>
    (gives_expr ctx e).bind fun _ h => (gives_exprList ctx rest).bind fun _ hs =>
      .pure ⟨h.inRep _, hs⟩
termination_by structural x => x

theorem gives_elementList (ctx : BodyContext) : ∀ es : List (Option Expr),
    Gives listPrimitive (elementList ctx es)
  | [] => .pure trivial
  | none :: rest => (gives_elementList ctx rest).bind fun _ hs => .pure ⟨rfl, hs⟩
  | some e :: rest =>
    (gives_expr ctx e).bind fun _ h => (gives_elementList ctx rest).bind fun _ hs =>
      .pure ⟨h.inRep _, hs⟩
termination_by structural x => x

theorem gives_propertyList (ctx : BodyContext) : ∀ ps : List Property,
    Gives propertiesPrimitive (propertyList ctx ps)
  | [] => .pure trivial
  | .mk _ _ value :: rest =>
    (gives_expr ctx value).bind fun _ h => (gives_propertyList ctx rest).bind fun _ hs =>
      .pure ⟨h.inRep _, hs⟩
termination_by structural x => x

theorem gives_member (ctx : BodyContext) : ∀ m : Member, Gives Reference.Primitive (member ctx m)
  | .named _ object _ => (gives_expr ctx object).bind fun _ h => .pure ⟨h.inRep _, rfl⟩
  | .computed _ object property =>
    (gives_expr ctx object).bind fun _ ho => (gives_expr ctx property).bind fun _ hp =>
      .pure ⟨ho.inRep _, hp.inRep _⟩
termination_by structural x => x

theorem gives_target (ctx : BodyContext) : ∀ t : Target, Gives Reference.Primitive (target ctx t)
  | .identifier _ => .after fun _ => .pure trivial
  | .member m => gives_member ctx m
termination_by structural x => x

/-- The code of a function has no objects. -/
theorem primitive_func (a : Analysis) : ∀ (f : Func) (code : FunctionCode), func a f = .ok code →
    code.Primitive
  | .mk _ id name params _ _ _ body, code, hcode => by
    have hparts : Gives (fun parts => statementsPrimitive parts.1 ∧ statementsPrimitive parts.2) (do
        let ctx := BodyContext.ofBody a id false
        let statements ← stmtList ctx .none body
        let self ← selfEntry ctx
        let declared ← hoistList ctx body
        return (statements, self ++ declared)) :=
      (gives_stmtList _ _ body).bind fun _ hb => (gives_selfEntry _).bind fun _ hs =>
        (gives_hoistList _ body).bind fun _ hd => .pure ⟨hb, statementsPrimitive_append hs hd⟩
    rw [func] at hcode
    obtain ⟨⟨⟨statements, entry⟩, s⟩, hrun, hcode⟩ := except_bind_eq_ok hcode
    cases hcode
    obtain ⟨hb, he⟩ := hparts hrun
    exact ⟨he, hb⟩
termination_by structural x => x

theorem gives_stmtList (ctx : BodyContext) (jumps : Jumps) : ∀ ss : List Stmt,
    Gives statementsPrimitive (stmtList ctx jumps ss)
  | [] => .pure trivial
  | .function _ :: rest => gives_stmtList ctx jumps rest
  | .empty _ :: rest => gives_stmtList ctx jumps rest
  | s :: rest => by
    have hrest := gives_stmtList ctx jumps rest
    have hboth : Gives statementsPrimitive (do
        let c ← stmt ctx jumps s
        let cs ← stmtList ctx jumps rest
        return c :: cs) :=
      (gives_stmt ctx jumps s).bind fun _ h => hrest.bind fun _ hs => .pure ⟨h, hs⟩
    cases s with
    | function f => exact hrest
    | empty span => exact hrest
    | _ => exact hboth
termination_by structural x => x

theorem gives_declaratorList (ctx : BodyContext) : ∀ ds : List Declarator,
    Gives statementsPrimitive (declaratorList ctx ds)
  | [] => .pure trivial
  | .mk _ _ none :: rest => gives_declaratorList ctx rest
  | .mk _ _ (some init) :: rest =>
    .after fun a => (gives_expr ctx init).bind fun _ h =>
      (gives_declaratorList ctx rest).bind fun _ hs =>
      .pure ⟨h.store a, hs⟩
termination_by structural x => x

theorem gives_clauseList (ctx : BodyContext) (jumps : Jumps) (slot : Nat) :
    ∀ cs : List SwitchClause,
    Gives clausesPrimitive (clauseList ctx jumps slot cs)
  | [] => .pure trivial
  | .mk _ none body :: rest =>
    (gives_stmtList ctx jumps body).bind fun _ hb =>
      (gives_clauseList ctx jumps slot rest).bind fun _ hs =>
      .pure ⟨hb, hs⟩
  | .mk _ (some test) body :: rest =>
    (gives_expr ctx test).bind fun _ ht => (gives_stmtList ctx jumps body).bind fun _ hb =>
      (gives_clauseList ctx jumps slot rest).bind fun _ hs =>
        .pure
          ⟨(TypedCode.Primitive.specializeBinary .strictlyEqual (l := ⟨.boxed, .slot .boxed slot⟩)
          trivial ht).inRep _, hb, hs⟩
termination_by structural x => x

theorem gives_block (ctx : BodyContext) (jumps : Jumps) : ∀ b : Block,
    Gives StatementCode.Primitive (block ctx jumps b)
  | .mk _ body => (gives_stmtList ctx jumps body).bind fun _ h => .pure h
termination_by structural x => x

theorem gives_handler (ctx : BodyContext) (jumps : Jumps) {body : StatementCode}
    (hbody : body.Primitive) :
    ∀ h : Handler, Gives StatementCode.Primitive (handler ctx jumps body h)
  | .mk _ _ b => .after fun _ => (gives_block ctx jumps b).bind fun _ h => .pure ⟨hbody, h⟩
termination_by structural x => x

/-- The code of a statement has no objects. -/
theorem gives_stmt (ctx : BodyContext) (jumps : Jumps) : ∀ s : Stmt,
    Gives StatementCode.Primitive (stmt ctx jumps s)
  | .expression _ e => by
    refine (gives_expr ctx e).bind fun c h => .pure ?_
    split
    · exact h.inRep _
    · exact h
  | .block b => gives_block ctx jumps b
  | .empty _ => .pure trivial
  | .debugger _ => .pure trivial
  | .function _ => .pure trivial
  | .declaration _ ds => (gives_declaratorList ctx ds).bind fun _ h => .pure h
  | .ret _ none => by
    rw [stmt_ret_none]
    split
    · exact .throw _
    · exact .pure rfl
  | .ret _ (some e) => by
    rw [stmt_ret_some]
    split
    · exact .throw _
    · exact (gives_expr ctx e).bind fun _ h => .pure (h.inRep _)
  | .brk _ label => .after fun _ => .pure trivial
  | .cont _ label => .after fun _ => .pure trivial
  | .labeled _ label body => by
    rw [stmt_labeled]
    split
    · exact .throw _
    · rename_i labeled _
      split
      · exact gives_stmt ctx labeled body
      · exact (gives_stmt ctx _ body).bind fun _ h => .pure h
  | .conditional _ test consequent none =>
    (gives_expr ctx test).bind fun _ ht => (gives_stmt ctx jumps consequent).bind fun _ hc =>
      .pure ⟨ht.inRep _, hc, trivial⟩
  | .conditional _ test consequent (some alternate) =>
    (gives_expr ctx test).bind fun _ ht => (gives_stmt ctx jumps consequent).bind fun _ hc =>
      (gives_stmt ctx jumps alternate).bind fun _ ha => .pure ⟨ht.inRep _, hc, ha⟩
  | .switch _ discriminant clauses =>
    (gives_expr ctx discriminant).bind fun _ hd => .after fun slot =>
      (gives_clauseList ctx _ slot.index clauses).bind fun _ hs => .pure ⟨hd.inRep _, hs⟩
  | .throw _ e => (gives_expr ctx e).bind fun _ h => .pure (h.inRep _)
  | .tryCatch _ b none none => by
    rw [stmt_tryCatch]
    exact (gives_block ctx jumps b).bind fun _ hb => (Gives.pure hb).bind fun _ hb => .pure hb
  | .tryCatch _ b none (some f) => by
    rw [stmt_tryCatch]
    exact (gives_block ctx jumps b).bind fun _ hb => (Gives.pure hb).bind fun _ hb =>
      (gives_block ctx jumps f).bind fun _ hf => .pure ⟨hb, hf⟩
  | .tryCatch _ b (some h) none => by
    rw [stmt_tryCatch]
    exact (gives_block ctx jumps b).bind fun _ hb =>
      (gives_handler ctx jumps hb h).bind fun _ hc => .pure hc
  | .tryCatch _ b (some h) (some f) => by
    rw [stmt_tryCatch]
    exact (gives_block ctx jumps b).bind fun _ hb => (gives_handler ctx jumps hb h).bind fun _ hc =>
      (gives_block ctx jumps f).bind fun _ hf => .pure ⟨hc, hf⟩
  | .while _ test body =>
    (gives_expr ctx test).bind fun _ ht => (gives_stmt ctx _ body).bind fun _ hb =>
      .pure ⟨ht.inRep _, trivial, hb⟩
  | .doWhile _ test body =>
    (gives_expr ctx test).bind fun _ ht => (gives_stmt ctx _ body).bind fun _ hb =>
      .pure ⟨hb, ht.inRep _⟩
  | .for _ init test update body => by
    rw [stmt_for]
    refine (gives_forInit ctx init).bind fun _ hi => (gives_forTest ctx test).bind fun _ ht => ?_
    refine (gives_forUpdate ctx update).bind fun _ hu => (gives_stmt ctx _ body).bind fun _ hb => ?_
    exact .pure (statementsPrimitive_append hi ⟨⟨ht, hu, hb⟩, trivial⟩)
  | .forIn _ left right body => by
    rw [stmt_forIn]
    exact (gives_forInPlace ctx left).bind fun _ hl => (gives_expr ctx right).bind fun _ hr =>
      (gives_stmt ctx _ body).bind fun _ hb => .pure ⟨hl, hr.inRep _, hb⟩
  | .with _ id object body => by
    rw [stmt_with]
    exact (gives_withEntry id (gives_expr ctx object)).bind fun _ hw =>
      (gives_stmt ctx jumps body).bind fun _ hb =>
      .pure ⟨hw, hb, trivial⟩
termination_by structural x => x

theorem gives_forInit (ctx : BodyContext) :
    ∀ init : ForInit, Gives statementsPrimitive (forInit ctx init)
  | .nothing => .pure trivial
  | .declaration _ ds => gives_declaratorList ctx ds
  | .expression e => (gives_expr ctx e).bind fun _ h => .pure ⟨h, trivial⟩
termination_by structural x => x

theorem gives_forTest (ctx : BodyContext) :
    ∀ test : Option Expr, Gives Code.Primitive (forTest ctx test)
  | none => .pure rfl
  | some e => (gives_expr ctx e).bind fun _ h => .pure (h.inRep _)
termination_by structural x => x

theorem gives_forUpdate (ctx : BodyContext) : ∀ update : Option Expr,
    Gives StatementCode.Primitive (forUpdate ctx update)
  | none => .pure trivial
  | some e => (gives_expr ctx e).bind fun _ h => .pure h
termination_by structural x => x

theorem gives_forInPlace (ctx : BodyContext) : ∀ left : ForInTarget,
    Gives Reference.Primitive (forInPlace ctx left)
  | .declaration _ => .after fun _ => .pure trivial
  | .target t => gives_target ctx t
termination_by structural x => x

theorem gives_hoistList (ctx : BodyContext) : ∀ ss : List Stmt,
    Gives statementsPrimitive (hoistList ctx ss)
  | [] => .pure trivial
  | s :: rest =>
    (gives_hoist ctx s).bind fun _ hs => (gives_hoistList ctx rest).bind fun _ hrest =>
      .pure (statementsPrimitive_append hs hrest)
termination_by structural x => x

theorem gives_hoistBlock (ctx : BodyContext) :
    ∀ b : Block, Gives statementsPrimitive (hoistBlock ctx b)
  | .mk _ body => gives_hoistList ctx body
termination_by structural x => x

theorem gives_hoistClauses (ctx : BodyContext) : ∀ cs : List SwitchClause,
    Gives statementsPrimitive (hoistClauses ctx cs)
  | [] => .pure trivial
  | .mk _ _ body :: rest =>
    (gives_hoistList ctx body).bind fun _ hs => (gives_hoistClauses ctx rest).bind fun _ hrest =>
      .pure (statementsPrimitive_append hs hrest)
termination_by structural x => x

/-- The code that makes the declared functions has no objects. -/
theorem gives_hoist (ctx : BodyContext) : ∀ s : Stmt, Gives statementsPrimitive (hoist ctx s)
  | .function (.mk _ _ none _ _ _ _ _) => .pure trivial
  | .function (.mk span id (some name) params strict isExpression bodySpan body) =>
    (Gives.lift (primitive_func ctx.analysis
      (.mk span id (some name) params strict isExpression bodySpan body))).bind fun _ h =>
        (gives_declaredFunction ctx name h).bind fun _ hs => .pure ⟨hs, trivial⟩
  | .block b => gives_hoistBlock ctx b
  | .labeled _ _ body => gives_hoist ctx body
  | .while _ _ body => gives_hoist ctx body
  | .doWhile _ _ body => gives_hoist ctx body
  | .with _ _ _ body => gives_hoist ctx body
  | .conditional _ _ c none => gives_hoist ctx c
  | .conditional _ _ c (some a) =>
    (gives_hoist ctx c).bind fun _ hc => (gives_hoist ctx a).bind fun _ ha =>
      .pure (statementsPrimitive_append hc ha)
  | .for _ _ _ _ body => gives_hoist ctx body
  | .forIn _ _ _ body => gives_hoist ctx body
  | .switch _ _ clauses => gives_hoistClauses ctx clauses
  | .tryCatch _ b none none =>
    (gives_hoistBlock ctx b).bind fun _ hb => (Gives.pure (a := []) trivial).bind fun _ hh =>
      (Gives.pure (a := []) trivial).bind fun _ hf =>
        .pure (statementsPrimitive_append (statementsPrimitive_append hb hh) hf)
  | .tryCatch _ b none (some f) =>
    (gives_hoistBlock ctx b).bind fun _ hb => (Gives.pure (a := []) trivial).bind fun _ hh =>
      (gives_hoistBlock ctx f).bind fun _ hf =>
        .pure (statementsPrimitive_append (statementsPrimitive_append hb hh) hf)
  | .tryCatch _ b (some (.mk _ _ h)) none =>
    (gives_hoistBlock ctx b).bind fun _ hb => (gives_hoistBlock ctx h).bind fun _ hh =>
      (Gives.pure (a := []) trivial).bind fun _ hf =>
        .pure (statementsPrimitive_append (statementsPrimitive_append hb hh) hf)
  | .tryCatch _ b (some (.mk _ _ h)) (some f) =>
    (gives_hoistBlock ctx b).bind fun _ hb => (gives_hoistBlock ctx h).bind fun _ hh =>
      (gives_hoistBlock ctx f).bind fun _ hf =>
        .pure (statementsPrimitive_append (statementsPrimitive_append hb hh) hf)
  | .expression .. | .empty _ | .debugger _ | .ret .. | .brk .. | .cont .. | .throw ..
  | .declaration .. => .pure trivial
termination_by structural x => x

end

end Compile

/-- No constant of a compiled script is an object. -/
theorem Program.primitive_of_compile {p : Program} {options : CompileOptions} {c : CompiledProgram}
    (h : p.compile options = .ok c) : c.code.Primitive := by
  obtain ⟨a, -, h⟩ := Compile.except_bind_eq_ok h
  obtain ⟨code, hcode, h⟩ := Compile.except_bind_eq_ok h
  cases h
  have hparts :
      Compile.Gives (fun parts => statementsPrimitive parts.1 ∧ statementsPrimitive parts.2) (do
      let ctx := BodyContext.ofBody a 0 true
      let statements ← Compile.stmtList ctx .none p.body
      let entry ← Compile.hoistList ctx p.body
      return (statements, entry)) :=
    (Compile.gives_stmtList _ _ p.body).bind fun _ hb =>
      (Compile.gives_hoistList _ p.body).bind fun _ hd =>
      .pure ⟨hb, hd⟩
  obtain ⟨⟨⟨statements, entry⟩, s⟩, hrun, hcode⟩ := Compile.except_bind_eq_ok hcode
  cases hcode
  obtain ⟨hb, he⟩ := hparts hrun
  exact ⟨he, hb⟩

end ScriptEngine
