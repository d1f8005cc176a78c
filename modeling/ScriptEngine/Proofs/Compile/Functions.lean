import ScriptEngine.Proofs.Analysis.Capture
import ScriptEngine.Proofs.Compile.Bodies
import ScriptEngine.Proofs.Compile.Constants

/-!
# Functions that a body makes

The code of a body makes the functions that stand in it, and no others: each of them is compiled
from a function whose names are resolved with the body around it.

## Main definitions

* `Compile.Inner` : the code of a function that stands in some bodies.
* `Makes` : code makes such functions only.

## Main statements

* `Compile.makes_expr`, `Compile.makes_stmt`, `Compile.makes_hoist` : the functions in code.
* `Compile.makes_of_func`, `Compile.makes_of_program` : the functions that a body makes.
-/

namespace ScriptEngine

/-- Something holds of the functions that are made. -/
def Effect.Makes (P : FunctionCode → Prop) : Effect → Prop
  | .function g => P g
  | .read _ | .write .. => True

/-- Something holds of all functions that are made. -/
def Makes (P : FunctionCode → Prop) (effects : List Effect) : Prop :=
  ∀ e ∈ effects, e.Makes P

section

variable {P : FunctionCode → Prop} {l l' : List Effect} {e : Effect}

theorem makes_nil : Makes P [] := nofun

theorem makes_cons : Makes P (e :: l) ↔ e.Makes P ∧ Makes P l :=
  List.forall_mem_cons

theorem makes_append : Makes P (l ++ l') ↔ Makes P l ∧ Makes P l' :=
  List.forall_mem_append

theorem makes_scopes (a : Access) : Makes P a.effects := by
  intro e he
  obtain ⟨b, -, rfl⟩ := List.mem_map.mp he
  trivial

theorem makes_writes (b : Binding) (source : Source) : Makes P (b.writes source) := by
  unfold Binding.writes
  split
  · exact makes_cons.mpr ⟨trivial, makes_nil⟩
  · exact makes_nil

theorem makes_reads (place : Reference) : Makes P place.reads := by
  cases place with
  | name a => exact makes_cons.mpr ⟨trivial, makes_nil⟩
  | member => exact makes_nil

theorem makes_assigns (place : Reference) (source : Source) : Makes P (place.writes source) := by
  cases place with
  | name a => exact makes_writes _ _
  | member => exact makes_nil

theorem makes_inRep {c : TypedCode} (h : Makes P c.effects) (ρ : Rep) :
    Makes P (c.inRep ρ).effects := by
  rwa [effects_inRep]

theorem makes_load (a : Access) (lenient : Bool) : Makes P (a.load lenient).effects := by
  unfold Access.load
  split
  · exact makes_cons.mpr ⟨trivial, makes_nil⟩
  · exact makes_append.mpr ⟨makes_scopes _, makes_reads _⟩

theorem makes_storeSlot {ρ : Rep} {index : Nat} {value : Code ρ} (h : Makes P value.effects) :
    Makes P (Code.storeSlot ρ index value).effects := by
  by_cases hvalue : ∃ σ operand, value = .unary (.convert σ ρ) operand
  · obtain ⟨σ, operand, rfl⟩ := hvalue
    rw [Code.effects]
    exact makes_append.mpr ⟨h, makes_cons.mpr ⟨trivial, makes_nil⟩⟩
  · rw [Code.effects_storeSlot fun σ operand heq => hvalue ⟨σ, operand, heq⟩]
    exact makes_append.mpr ⟨h, makes_cons.mpr ⟨trivial, makes_nil⟩⟩

theorem makes_store (a : Access) {v : TypedCode} (h : Makes P v.effects) :
    Makes P (a.store v).effects := by
  unfold Access.store
  split
  · exact makes_storeSlot (makes_inRep h _)
  · exact makes_append.mpr ⟨makes_scopes _, makes_append.mpr ⟨makes_inRep h _, makes_writes _ _⟩⟩

theorem makes_stepCode (op : UpdateOp) (before : Bool) {place : Reference}
    (h : Makes P place.effects) :
    Makes P (Compile.stepCode op before place).effects := by
  unfold Compile.stepCode
  split
  · exact makes_cons.mpr ⟨trivial, makes_cons.mpr ⟨trivial, makes_nil⟩⟩
  · exact makes_append.mpr ⟨h, makes_append.mpr ⟨makes_reads _, makes_assigns _ _⟩⟩

theorem makes_binary (op : BinaryOp) {l r : TypedCode} (hl : Makes P l.effects)
    (hr : Makes P r.effects) :
    Makes P (specializeBinary op l r).effects := by
  rw [effects_binary]
  exact makes_append.mpr ⟨hl, hr⟩

theorem makes_sequenceCode {first : TypedCode} {rest : List TypedCode}
    (h : ∀ c ∈ first :: rest, Makes P c.effects) : Makes P (sequenceCode first rest).effects := by
  induction rest generalizing first with
  | nil => exact h first List.mem_cons_self
  | cons next rest ih =>
    exact makes_append.mpr
      ⟨h first List.mem_cons_self, ih fun c hc => h c (List.mem_cons_of_mem _ hc)⟩

theorem makes_entry {cs ds : List StatementCode} (hc : Makes P (statementEffects cs))
    (hd : Makes P (statementEffects ds)) : Makes P (statementEffects (cs ++ ds)) := by
  induction cs with
  | nil => exact hd
  | cons c rest ih =>
    obtain ⟨hc, hrest⟩ := makes_append.mp hc
    exact makes_append.mpr ⟨hc, ih hrest⟩

end

namespace Compile

variable {r : Analysis} {origin : VariableId → NodeId} {ctx : BodyContext} {env : Environment}

/-- The code of a function that stands in some bodies, innermost first. -/
def Inner (r : Analysis) (origin : VariableId → NodeId) (a : Analysis) (bodies : List FunctionId)
    (code : FunctionCode) : Prop :=
  ∃ env f, env.bodies = bodies ∧ Func.Resolved r origin env f ∧ func a f = .ok code

/-- The functions that code makes stand in the bodies of an environment. -/
abbrev MakesInner (r : Analysis) (origin : VariableId → NodeId) (a : Analysis) (env : Environment)
    (effects : List Effect) : Prop :=
  Makes (Inner r origin a env.bodies) effects

theorem makes_selfEntry (P : FunctionCode → Prop) :
    Gives (fun cs => Makes P (statementEffects cs)) (selfEntry ctx) := by
  unfold selfEntry
  split
  · exact .after fun a => .pure (makes_append.mpr ⟨makes_store _ makes_nil, makes_nil⟩)
  · exact .pure makes_nil

theorem makes_withEntry (env : Environment) (id : NodeId) {object : Expr}
    (h : Gives (fun c => MakesInner r origin ctx.analysis env c.effects) (expr ctx object)) :
    Gives (fun c => MakesInner r origin ctx.analysis env c.effects) (withEntry ctx id object) := by
  unfold withEntry
  split
  · exact .throw _
  · exact .after fun a => h.bind fun _ h => .pure (makes_store a (makes_inRep h _))

mutual

theorem makes_expr (env : Environment) : ∀ e : Expr, Expr.Resolved r origin env e →
    Gives (fun c => MakesInner r origin ctx.analysis env c.effects) (expr ctx e)
  | .literal _ value, _ => .pure (by cases value <;> exact makes_nil)
  | .identifier i, _ => .after fun a => .pure (makes_load a false)
  | .this _, _ => .pure makes_nil
  | .array _ elements, h => (makes_elementList env elements h).bind fun _ h => .pure h
  | .object _ properties, h => (makes_propertyList env properties h).bind fun _ h => .pure h
  | .function f, h =>
    (Gives.lift fun _ hcode => ⟨env, f, rfl, h, hcode⟩).bind fun _ h =>
      .pure (makes_cons.mpr ⟨h, makes_nil⟩)
  | .unary _ op argument, h => by
    have hdynamic : Gives (fun c => MakesInner r origin ctx.analysis env c.effects)
        (do return specializeUnary op (← expr ctx argument)) :=
      (makes_expr env argument h).bind fun _ h => .pure (by rwa [effects_unary])
    cases op with
    | delete =>
      cases argument with
      | identifier i => exact .after fun _ => .pure (makes_scopes _)
      | member m => exact (makes_member env m h).bind fun _ h => .pure h
      | _ => exact hdynamic
    | typeOf =>
      cases argument with
      | identifier i =>
        refine .after fun a => .pure ?_
        rw [effects_unary]
        exact makes_load a true
      | _ => exact hdynamic
    | _ => exact hdynamic
  | .update _ op t before, h =>
    (makes_target env t h).bind fun _ h => .pure (makes_stepCode op before h)
  | .binary _ op left right, h =>
    (makes_expr env left h.1).bind fun _ hl => (makes_expr env right h.2).bind fun _ hr =>
      .pure (makes_binary op hl hr)
  | .logical _ op left right, h =>
    (makes_expr env left h.1).bind fun _ hl => (makes_expr env right h.2).bind fun _ hr =>
      .pure (makes_append.mpr ⟨makes_inRep hl _, makes_inRep hr _⟩)
  | .assign _ .plain (.identifier i) value, h =>
    .after fun a => (makes_expr env value h.2).bind fun _ h => .pure (makes_store a h)
  | .assign _ .plain (.member m) value, h =>
    (makes_member env m h.1).bind fun _ hm => (makes_expr env value h.2).bind fun _ hv =>
      .pure (makes_append.mpr ⟨hm, makes_append.mpr ⟨makes_inRep hv _, makes_assigns _ _⟩⟩)
  | .assign _ (.compound op) (.identifier i) value, h => by
    refine .after fun a => (makes_expr env value h.2).bind fun v hv => ?_
    split
    · exact .pure (makes_store a (makes_binary op (makes_load a false) hv))
    · exact .pure (makes_append.mpr ⟨makes_scopes _, makes_append.mpr ⟨makes_reads _,
        makes_append.mpr ⟨makes_inRep hv _, makes_assigns _ _⟩⟩⟩)
  | .assign _ (.compound op) (.member m) value, h =>
    (makes_expr env value h.2).bind fun _ hv => (makes_member env m h.1).bind fun _ hm =>
      .pure (makes_append.mpr ⟨hm, makes_append.mpr ⟨makes_reads _,
        makes_append.mpr ⟨makes_inRep hv _, makes_assigns _ _⟩⟩⟩)
  | .conditional _ test consequent alternate, h =>
    (makes_expr env test h.1).bind fun _ ht => (makes_expr env consequent h.2.1).bind fun _ hc =>
      (makes_expr env alternate h.2.2).bind fun _ ha =>
        .pure (makes_append.mpr ⟨makes_inRep ht _,
          makes_append.mpr ⟨makes_inRep hc _, makes_inRep ha _⟩⟩)
  | .call _ callee arguments, h => by
    have hplain : Gives (fun c : TypedCode => MakesInner r origin ctx.analysis env c.effects) (do
        let f ← expr ctx callee
        return ⟨.boxed, .call (f.inRep .boxed) (← exprList ctx arguments)⟩) :=
      (makes_expr env callee h.1).bind fun _ hf =>
        (makes_exprList env arguments h.2).bind fun _ hs =>
        .pure (makes_append.mpr ⟨makes_inRep hf _, hs⟩)
    cases callee with
    | member m =>
      exact (makes_member env m h.1).bind fun _ hm =>
        (makes_exprList env arguments h.2).bind fun _ hs =>
        .pure (makes_append.mpr ⟨hm, makes_append.mpr ⟨makes_reads _, hs⟩⟩)
    | identifier i =>
      exact .after fun a => (makes_exprList env arguments h.2).bind fun _ hs =>
        .pure (makes_append.mpr ⟨makes_scopes a, makes_append.mpr ⟨makes_reads _, hs⟩⟩)
    | _ => exact hplain
  | .construct _ callee arguments, h =>
    (makes_expr env callee h.1).bind fun _ hf => (makes_exprList env arguments h.2).bind fun _ hs =>
      .pure (makes_append.mpr ⟨makes_inRep hf _, hs⟩)
  | .sequence _ expressions, h => by
    refine (makes_typedList env expressions h).bind fun cs hcs => ?_
    cases cs with
    | nil => exact .pure makes_nil
    | cons first rest => exact .pure (makes_sequenceCode hcs)
  | .member m, h =>
    (makes_member env m h).bind fun _ hm => .pure (makes_append.mpr ⟨hm, makes_reads _⟩)
termination_by structural x => x

theorem makes_typedList (env : Environment) : ∀ es : List Expr, exprsResolved r origin env es →
    Gives (fun cs => ∀ c ∈ cs, MakesInner r origin ctx.analysis env c.effects) (typedList ctx es)
  | [], _ => .pure nofun
  | e :: rest, h =>
    (makes_expr env e h.1).bind fun _ hc => (makes_typedList env rest h.2).bind fun _ hs =>
      .pure (List.forall_mem_cons.mpr ⟨hc, hs⟩)
termination_by structural x => x

theorem makes_exprList (env : Environment) : ∀ es : List Expr, exprsResolved r origin env es →
    Gives (fun cs => MakesInner r origin ctx.analysis env (listEffects cs)) (exprList ctx es)
  | [], _ => .pure makes_nil
  | e :: rest, h =>
    (makes_expr env e h.1).bind fun _ hc => (makes_exprList env rest h.2).bind fun _ hs =>
      .pure (makes_append.mpr ⟨makes_inRep hc _, hs⟩)
termination_by structural x => x

theorem makes_elementList (env : Environment) :
    ∀ es : List (Option Expr), elementsResolved r origin env es →
    Gives (fun cs => MakesInner r origin ctx.analysis env (listEffects cs)) (elementList ctx es)
  | [], _ => .pure makes_nil
  | none :: rest, h => (makes_elementList env rest h).bind fun _ hs => .pure hs
  | some e :: rest, h =>
    (makes_expr env e h.1).bind fun _ hc => (makes_elementList env rest h.2).bind fun _ hs =>
      .pure (makes_append.mpr ⟨makes_inRep hc _, hs⟩)
termination_by structural x => x

theorem makes_propertyList (env : Environment) :
    ∀ ps : List Property, propertiesResolved r origin env ps →
    Gives (fun cs => MakesInner r origin ctx.analysis env (propertyEffects cs))
      (propertyList ctx ps)
  | [], _ => .pure makes_nil
  | .mk _ _ value :: rest, h =>
    (makes_expr env value h.1).bind fun _ hc => (makes_propertyList env rest h.2).bind fun _ hs =>
      .pure (makes_append.mpr ⟨makes_inRep hc _, hs⟩)
termination_by structural x => x

theorem makes_member (env : Environment) : ∀ m : Member, Member.Resolved r origin env m →
    Gives (fun c => MakesInner r origin ctx.analysis env c.effects) (member ctx m)
  | .named _ object _, h =>
    (makes_expr env object h).bind fun _ ho =>
      .pure (makes_append.mpr ⟨makes_inRep ho _, makes_nil⟩)
  | .computed _ object property, h =>
    (makes_expr env object h.1).bind fun _ ho => (makes_expr env property h.2).bind fun _ hp =>
      .pure (makes_append.mpr ⟨makes_inRep ho _, makes_inRep hp _⟩)
termination_by structural x => x

theorem makes_target (env : Environment) : ∀ t : Target, Target.Resolved r origin env t →
    Gives (fun c => MakesInner r origin ctx.analysis env c.effects) (target ctx t)
  | .identifier _, _ => .after fun a => .pure (makes_scopes a)
  | .member m, h => makes_member env m h
termination_by structural x => x

theorem makes_declaratorList (env : Environment) :
    ∀ ds : List Declarator, declaratorsResolved r origin env ds →
    Gives (fun cs => MakesInner r origin ctx.analysis env (statementEffects cs))
      (declaratorList ctx ds)
  | [], _ => .pure makes_nil
  | .mk _ _ none :: rest, h => makes_declaratorList env rest h.2
  | .mk _ _ (some init) :: rest, h =>
    .after fun a => (makes_expr env init h.2.1).bind fun _ hv =>
      (makes_declaratorList env rest h.2.2).bind fun _ hs =>
        .pure (makes_append.mpr ⟨makes_store a hv, hs⟩)
termination_by structural x => x

theorem makes_stmtList (env : Environment) (jumps : Jumps) :
    ∀ ss : List Stmt, stmtsResolved r origin env ss →
    Gives (fun cs => MakesInner r origin ctx.analysis env (statementEffects cs))
      (stmtList ctx jumps ss)
  | [], _ => .pure makes_nil
  | .function _ :: rest, h => makes_stmtList env jumps rest h.2
  | .empty _ :: rest, h => makes_stmtList env jumps rest h.2
  | s :: rest, h => by
    have hrest := makes_stmtList env jumps rest h.2
    have hboth : Gives (fun cs => MakesInner r origin ctx.analysis env (statementEffects cs)) (do
        let c ← stmt ctx jumps s
        let cs ← stmtList ctx jumps rest
        return c :: cs) :=
      (makes_stmt env jumps s h.1).bind fun _ hc => hrest.bind fun _ hs =>
        .pure (makes_append.mpr ⟨hc, hs⟩)
    cases s with
    | function f => exact hrest
    | empty span => exact hrest
    | _ => exact hboth
termination_by structural x => x

theorem makes_clauseList (env : Environment) (jumps : Jumps) (slot : Nat) :
    ∀ cs : List SwitchClause,
    clausesResolved r origin env cs →
      Gives (fun cs => MakesInner r origin ctx.analysis env (clauseEffects cs))
        (clauseList ctx jumps slot cs)
  | [], _ => .pure makes_nil
  | .mk _ none body :: rest, h =>
    (makes_stmtList env jumps body h.1).bind fun _ hb =>
      (makes_clauseList env jumps slot rest h.2).bind
        fun _ hs => .pure (makes_append.mpr ⟨hb, hs⟩)
  | .mk _ (some test) body :: rest, h =>
    (makes_expr env test h.1).bind fun _ ht =>
      (makes_stmtList env jumps body h.2.1).bind fun _ hb =>
      (makes_clauseList env jumps slot rest h.2.2).bind fun _ hs =>
        .pure (makes_append.mpr
          ⟨makes_inRep (makes_binary .strictlyEqual (l := ⟨.boxed, .slot .boxed slot⟩)
          (makes_cons.mpr ⟨trivial, makes_nil⟩) ht) _, makes_append.mpr ⟨hb, hs⟩⟩)
termination_by structural x => x

theorem makes_block (env : Environment) (jumps : Jumps) :
    ∀ b : Block, Block.Resolved r origin env b →
    Gives (fun c => MakesInner r origin ctx.analysis env c.effects) (block ctx jumps b)
  | .mk _ body, h => (makes_stmtList env jumps body h).bind fun _ h => .pure h
termination_by structural x => x

theorem makes_handler (env : Environment) (jumps : Jumps) {body : StatementCode}
    (hbody : MakesInner r origin ctx.analysis env body.effects) : ∀ h : Handler,
    Handler.Resolved r origin env h →
      Gives (fun c => MakesInner r origin ctx.analysis env c.effects) (handler ctx jumps body h)
  | .mk _ _ b, h => by
    obtain ⟨v, -, -, -, hb⟩ := h
    have hblock :
        Gives (fun c => MakesInner r origin ctx.analysis (Resolve.openScope _ env) c.effects)
        (block ctx jumps b) := makes_block _ jumps b hb
    simp only [MakesInner, Resolve.bodies_openScope] at hblock
    exact .after fun a => hblock.bind fun _ hb => .pure (makes_append.mpr ⟨hbody,
      makes_append.mpr ⟨makes_scopes a, makes_append.mpr ⟨makes_writes _ _, hb⟩⟩⟩)
termination_by structural x => x

theorem makes_stmt (env : Environment) (jumps : Jumps) : ∀ s : Stmt, Stmt.Resolved r origin env s →
    Gives (fun c => MakesInner r origin ctx.analysis env c.effects) (stmt ctx jumps s)
  | .expression _ e, h => by
    refine (makes_expr env e h).bind fun c hc => .pure ?_
    split
    · exact makes_inRep hc _
    · exact hc
  | .block b, h => makes_block env jumps b h
  | .empty _, _ => .pure makes_nil
  | .debugger _, _ => .pure makes_nil
  | .function _, _ => .pure makes_nil
  | .declaration _ ds, h => (makes_declaratorList env ds h).bind fun _ h => .pure h
  | .ret _ none, _ => by
    rw [stmt_ret_none]
    split
    · exact .throw _
    · exact .pure makes_nil
  | .ret _ (some e), h => by
    rw [stmt_ret_some]
    split
    · exact .throw _
    · exact (makes_expr env e h).bind fun _ hc => .pure (makes_inRep hc _)
  | .brk _ label, _ => .after fun _ => .pure makes_nil
  | .cont _ label, _ => .after fun _ => .pure makes_nil
  | .labeled _ label body, h => by
    rw [stmt_labeled]
    split
    · exact .throw _
    · rename_i labeled _
      split
      · exact makes_stmt env labeled body h
      · exact (makes_stmt env _ body h).bind fun _ hc => .pure hc
  | .conditional _ test consequent none, h =>
    (makes_expr env test h.1).bind fun _ ht =>
      (makes_stmt env jumps consequent h.2).bind fun _ hc =>
      .pure (makes_append.mpr ⟨makes_inRep ht _, makes_append.mpr ⟨hc, makes_nil⟩⟩)
  | .conditional _ test consequent (some alternate), h =>
    (makes_expr env test h.1).bind fun _ ht =>
      (makes_stmt env jumps consequent h.2.1).bind fun _ hc =>
      (makes_stmt env jumps alternate h.2.2).bind fun _ ha =>
        .pure (makes_append.mpr ⟨makes_inRep ht _, makes_append.mpr ⟨hc, ha⟩⟩)
  | .switch _ discriminant clauses, h =>
    (makes_expr env discriminant h.1).bind fun _ hd => .after fun slot =>
      (makes_clauseList env _ slot.index clauses h.2).bind fun _ hs =>
        .pure (makes_append.mpr ⟨makes_inRep hd _, makes_cons.mpr ⟨trivial, hs⟩⟩)
  | .throw _ e, h => (makes_expr env e h).bind fun _ hc => .pure (makes_inRep hc _)
  | .tryCatch _ b none none, h => by
    rw [stmt_tryCatch]
    exact (makes_block env jumps b h.1).bind fun _ hb =>
      (Gives.pure (P := fun c : StatementCode => MakesInner r origin ctx.analysis env c.effects)
        hb).bind fun _ hb => .pure hb
  | .tryCatch _ b none (some f), h => by
    rw [stmt_tryCatch]
    exact (makes_block env jumps b h.1).bind fun _ hb =>
      (Gives.pure (P := fun c : StatementCode => MakesInner r origin ctx.analysis env c.effects)
        hb).bind fun _ hb =>
      (makes_block env jumps f h.2.2).bind fun _ hf => .pure (makes_append.mpr ⟨hb, hf⟩)
  | .tryCatch _ b (some c) none, h => by
    rw [stmt_tryCatch]
    exact (makes_block env jumps b h.1).bind fun _ hb => (makes_handler env jumps hb c h.2.1).bind
      fun _ hc => .pure hc
  | .tryCatch _ b (some c) (some f), h => by
    rw [stmt_tryCatch]
    exact (makes_block env jumps b h.1).bind fun _ hb =>
      (makes_handler env jumps hb c h.2.1).bind fun _ hc =>
      (makes_block env jumps f h.2.2).bind fun _ hf => .pure (makes_append.mpr ⟨hc, hf⟩)
  | .while _ test body, h =>
    (makes_expr env test h.1).bind fun _ ht => (makes_stmt env _ body h.2).bind fun _ hb =>
      .pure (makes_append.mpr ⟨makes_inRep ht _, makes_append.mpr ⟨makes_nil, hb⟩⟩)
  | .doWhile _ test body, h =>
    (makes_expr env test h.1).bind fun _ ht => (makes_stmt env _ body h.2).bind fun _ hb =>
      .pure (makes_append.mpr ⟨hb, makes_inRep ht _⟩)
  | .for _ init test update body, h => by
    rw [stmt_for]
    refine (makes_forInit env init h.1).bind fun _ hi =>
      (makes_forTest env test h.2.1).bind fun _ ht => ?_
    refine (makes_forUpdate env update h.2.2.1).bind fun _ hu =>
      (makes_stmt env _ body h.2.2.2).bind
        fun _ hb => ?_
    exact .pure (makes_entry hi (makes_append.mpr
      ⟨makes_append.mpr ⟨ht, makes_append.mpr ⟨hu, hb⟩⟩, makes_nil⟩))
  | .forIn _ left right body, h => by
    rw [stmt_forIn]
    exact (makes_forInPlace env left h.1).bind fun _ hl =>
      (makes_expr env right h.2.1).bind fun _ hr =>
      (makes_stmt env _ body h.2.2).bind fun _ hb => .pure (makes_append.mpr ⟨makes_inRep hr _,
        makes_append.mpr ⟨hl, makes_append.mpr ⟨makes_assigns _ _, hb⟩⟩⟩)
  | .with _ id object body, h => by
    obtain ⟨ho, v, -, -, -, hbody⟩ := h
    have hstmt :
        Gives (fun c => MakesInner r origin ctx.analysis (Resolve.openScope _ env) c.effects)
        (stmt ctx jumps body) := makes_stmt _ jumps body hbody
    simp only [MakesInner, Resolve.bodies_openScope] at hstmt
    rw [stmt_with]
    exact (makes_withEntry env id (makes_expr env object ho)).bind fun _ hw =>
      hstmt.bind fun _ hb =>
      .pure (makes_append.mpr ⟨hw, makes_append.mpr ⟨hb, makes_nil⟩⟩)
termination_by structural x => x

theorem makes_forInit (env : Environment) : ∀ init : ForInit, ForInit.Resolved r origin env init →
    Gives (fun cs => MakesInner r origin ctx.analysis env (statementEffects cs)) (forInit ctx init)
  | .nothing, _ => .pure makes_nil
  | .declaration _ ds, h => makes_declaratorList env ds h
  | .expression e, h =>
    (makes_expr env e h).bind fun _ hc => .pure (makes_append.mpr ⟨hc, makes_nil⟩)

theorem makes_forTest (env : Environment) : ∀ test : Option Expr, optionResolved r origin env test →
    Gives (fun c => MakesInner r origin ctx.analysis env c.effects) (forTest ctx test)
  | none, _ => .pure makes_nil
  | some e, h => (makes_expr env e h).bind fun _ hc => .pure (makes_inRep hc _)

theorem makes_forUpdate (env : Environment) :
    ∀ update : Option Expr, optionResolved r origin env update →
    Gives (fun c => MakesInner r origin ctx.analysis env c.effects) (forUpdate ctx update)
  | none, _ => .pure makes_nil
  | some e, h => (makes_expr env e h).bind fun _ hc => .pure hc

theorem makes_forInPlace (env : Environment) :
    ∀ left : ForInTarget, ForInTarget.Resolved r origin env left →
    Gives (fun c => MakesInner r origin ctx.analysis env c.effects) (forInPlace ctx left)
  | .declaration _, _ => .after fun a => .pure (makes_scopes a)
  | .target t, h => makes_target env t h

end

theorem makes_declaredFunction {P : FunctionCode → Prop} (name : Identifier) {code : FunctionCode}
    (h : P code) : Gives (fun c => Makes P c.effects) (declaredFunction ctx name code) :=
  .after fun a =>
    .pure (makes_store a (v := ⟨.boxed, .function code⟩) (makes_cons.mpr ⟨h, makes_nil⟩))

/-- The functions of the parts of a `try` statement. -/
theorem Gives.parts {P : FunctionCode → Prop} {x y z : Compile (List StatementCode)}
    (hx : Gives (fun cs => Makes P (statementEffects cs)) x)
    (hy : Gives (fun cs => Makes P (statementEffects cs)) y)
    (hz : Gives (fun cs => Makes P (statementEffects cs)) z) :
    Gives (fun cs => Makes P (statementEffects cs)) (do
      let first ← x
      let handled ← y
      let finished ← z
      return first ++ handled ++ finished) :=
  hx.bind fun _ hx => hy.bind fun _ hy => hz.bind fun _ hz =>
    .pure (makes_entry (makes_entry hx hy) hz)

mutual

theorem makes_hoistList (env : Environment) : ∀ ss : List Stmt, stmtsResolved r origin env ss →
    Gives (fun cs => MakesInner r origin ctx.analysis env (statementEffects cs)) (hoistList ctx ss)
  | [], _ => .pure makes_nil
  | s :: rest, h =>
    (makes_hoist env s h.1).bind fun _ hs => (makes_hoistList env rest h.2).bind fun _ hrest =>
      .pure (makes_entry hs hrest)
termination_by structural x => x

theorem makes_hoistBlock (env : Environment) : ∀ b : Block, Block.Resolved r origin env b →
    Gives (fun cs => MakesInner r origin ctx.analysis env (statementEffects cs)) (hoistBlock ctx b)
  | .mk _ body, h => makes_hoistList env body h
termination_by structural x => x

theorem makes_hoistHandler (env : Environment) : ∀ h : Handler, Handler.Resolved r origin env h →
    Gives (fun cs => MakesInner r origin ctx.analysis env (statementEffects cs))
      (match h with | .mk _ _ b => hoistBlock ctx b)
  | .mk _ _ b, h => by
    obtain ⟨v, -, -, -, hb⟩ := h
    have hblock : Gives (fun cs => MakesInner r origin ctx.analysis (Resolve.openScope _ env)
        (statementEffects cs)) (hoistBlock ctx b) := makes_hoistBlock _ b hb
    simp only [MakesInner, Resolve.bodies_openScope] at hblock
    exact hblock
termination_by structural x => x

theorem makes_hoistClauses (env : Environment) :
    ∀ cs : List SwitchClause, clausesResolved r origin env cs →
    Gives (fun cs => MakesInner r origin ctx.analysis env (statementEffects cs))
      (hoistClauses ctx cs)
  | [], _ => .pure makes_nil
  | .mk _ none body :: rest, h =>
    (makes_hoistList env body h.1).bind fun _ hs =>
      (makes_hoistClauses env rest h.2).bind fun _ hrest =>
      .pure (makes_entry hs hrest)
  | .mk _ (some _) body :: rest, h =>
    (makes_hoistList env body h.2.1).bind fun _ hs =>
      (makes_hoistClauses env rest h.2.2).bind fun _ hrest =>
      .pure (makes_entry hs hrest)

theorem makes_hoist (env : Environment) : ∀ s : Stmt, Stmt.Resolved r origin env s →
    Gives (fun cs => MakesInner r origin ctx.analysis env (statementEffects cs)) (hoist ctx s)
  | .function (.mk _ _ none _ _ _ _ _), _ => .pure makes_nil
  | .function (.mk span id (some name) params strict isExpression bodySpan body), h =>
    (Gives.lift fun _ hcode =>
      ⟨Resolve.hoistedEnvironment env, _, Resolve.bodies_hoistedEnvironment env,
        h.2, hcode⟩).bind fun _ hcode => (makes_declaredFunction name hcode).bind fun _ hs =>
          .pure (makes_append.mpr ⟨hs, makes_nil⟩)
  | .block b, h => makes_hoistBlock env b h
  | .labeled _ _ body, h => makes_hoist env body h
  | .while _ _ body, h => makes_hoist env body h.2
  | .doWhile _ _ body, h => makes_hoist env body h.2
  | .with _ _ _ body, h => by
    obtain ⟨-, v, -, -, -, hbody⟩ := h
    have hhoist : Gives (fun cs => MakesInner r origin ctx.analysis (Resolve.openScope _ env)
        (statementEffects cs)) (hoist ctx body) := makes_hoist _ body hbody
    simp only [MakesInner, Resolve.bodies_openScope] at hhoist
    exact hhoist
  | .conditional _ _ c none, h => makes_hoist env c h.2
  | .conditional _ _ c (some a), h =>
    (makes_hoist env c h.2.1).bind fun _ hc => (makes_hoist env a h.2.2).bind fun _ ha =>
      .pure (makes_entry hc ha)
  | .for _ _ _ _ body, h => makes_hoist env body h.2.2.2
  | .forIn _ _ _ body, h => makes_hoist env body h.2.2
  | .switch _ _ clauses, h => makes_hoistClauses env clauses h.2
  | .tryCatch _ b none none, h =>
    (makes_hoistBlock env b h.1).parts (.pure makes_nil) (.pure makes_nil)
  | .tryCatch _ b none (some f), h =>
    (makes_hoistBlock env b h.1).parts (.pure makes_nil) (makes_hoistBlock env f h.2.2)
  | .tryCatch _ b (some (.mk span name c)) none, h =>
    (makes_hoistBlock env b h.1).parts (makes_hoistHandler env (.mk span name c) h.2.1)
      (.pure makes_nil)
  | .tryCatch _ b (some (.mk span name c)) (some f), h =>
    (makes_hoistBlock env b h.1).parts (makes_hoistHandler env (.mk span name c) h.2.1)
      (makes_hoistBlock env f h.2.2)
  | .expression .., _ | .empty _, _ | .debugger _, _ | .ret .., _ | .brk .., _ | .cont .., _
  | .throw .., _ | .declaration .., _ => .pure makes_nil
termination_by structural x => x

end

/-! ### Bodies -/

/-- The functions that the code of a body makes are inside of the body. -/
theorem makes_of_func {a : Analysis} {f : Func} {code : FunctionCode} {bodies : List FunctionId}
    (h : func a f = .ok code) (hresolved : stmtsResolved r origin (⟨f.id, []⟩ :: env) f.body)
    (hbodies : env.bodies = bodies) : Makes (Inner r origin a (f.id :: bodies)) code.effects := by
  subst hbodies
  obtain ⟨statements, entry, given, name, paramCount, hrun, rfl⟩ := func_eq_ok h
  have hparts :
      Gives (fun parts => MakesInner r origin a (⟨f.id, []⟩ :: env) (statementEffects parts.2) ∧
      MakesInner r origin a (⟨f.id, []⟩ :: env) (statementEffects parts.1))
      (functionParts (.ofBody a f.id false) f.body) :=
    (makes_stmtList _ _ f.body hresolved).bind fun _ hb => (makes_selfEntry _).bind fun _ hself =>
      (makes_hoistList _ f.body hresolved).bind fun _ hd => .pure ⟨makes_entry hself hd, hb⟩
  exact makes_append.mpr (hparts hrun)

theorem makes_of_program {a : Analysis} {p : Program} {code : FunctionCode}
    (h : program a p = .ok code) (hresolved : stmtsResolved r origin [⟨0, []⟩] p.body) :
    Makes (Inner r origin a [0]) code.effects := by
  obtain ⟨statements, entry, given, globals, hrun, rfl⟩ := program_eq_ok h
  have hparts : Gives (fun parts => MakesInner r origin a [⟨0, []⟩] (statementEffects parts.2) ∧
      MakesInner r origin a [⟨0, []⟩] (statementEffects parts.1))
        (scriptParts (.ofBody a 0 true) p.body) :=
    (makes_stmtList _ _ p.body hresolved).bind fun _ hb => (makes_hoistList _ p.body hresolved).bind
      fun _ hd => .pure ⟨hd, hb⟩
  exact makes_append.mpr (hparts hrun)

end Compile

end ScriptEngine
