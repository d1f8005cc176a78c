import ScriptEngine.Proofs.Analysis.Resolution

/-!
# Names at their places

Once all names of a script are resolved, each of its occurrences is resolved in the environment that
the scopes around it give.

## Main definitions

* `Environment.Reads` : the environment that the scopes around a place give.
* `Occurrence.Resolved` : an occurrence is resolved at its place.

## Main statements

* `Program.Scoped.occurrences` : all occurrences in a script are resolved.
-/

namespace ScriptEngine

variable {a : Analysis} {origin : VariableId → NodeId}

/-! ### Environments of places -/

variable (a origin) in
/-- The environment that the scopes around a place give. -/
inductive Environment.Reads : List Scope → Environment → Prop
  | script (bound : 0 < a.bodies.size) : Reads [] [⟨0, []⟩]
  | function {f : Func} {scopes : List Scope} {env : Environment} (opens : a.Opens env f)
      (outer : Reads scopes env) : Reads (.function f :: scopes) (⟨f.id, []⟩ :: env)
  | catch {param : Identifier} {v : VariableId} {scopes : List Scope} {env : Environment}
      (holder : a.reference? param = some v) (own : origin v = param.id)
      (valid : (ScopeEntry.catch_ param.name v).Valid a (Resolve.current env))
      (outer : Reads scopes env) :
      Reads (.catch param :: scopes) (Resolve.openScope (.catch_ param.name v) env)
  | with {id : NodeId} {v : VariableId} {scopes : List Scope} {env : Environment}
      (holder : a.withVariable? id = some v) (own : origin v = id)
      (valid : (ScopeEntry.with_ v).Valid a (Resolve.current env)) (outer : Reads scopes env) :
      Reads (.with id :: scopes) (Resolve.openScope (.with_ v) env)

namespace Environment.Reads

variable {scopes : List Scope} {env : Environment}

theorem valid (h : Reads a origin scopes env) : env.Valid a := by
  induction h with
  | script bound => exact .script bound nofun
  | function opens _ ih => exact ih.opens opens
  | «catch» _ _ valid _ ih => exact ih.openScope valid
  | «with» _ _ valid _ ih => exact ih.openScope valid

theorem bodies (h : Reads a origin scopes env) : env.bodies = Scope.path scopes := by
  induction h with
  | script => rfl
  | function _ _ ih => exact congrArg (_ :: ·) ih
  | «catch» _ _ _ _ ih => exact (Resolve.bodies_openScope _ _).trans ih
  | «with» _ _ _ _ ih => exact (Resolve.bodies_openScope _ _).trans ih

theorem current_eq (h : Reads a origin scopes env) : Resolve.current env = Scope.owner scopes :=
  (Scope.owner_of_bodies h.valid h.bodies).symm

/-- The scopes of the body around a function declaration do not count. -/
theorem hoisted (h : Reads a origin scopes env) :
    Reads a origin (Scope.hoisted scopes) (Resolve.hoistedEnvironment env) := by
  have hopen (e : ScopeEntry) (env : Environment) :
      Resolve.hoistedEnvironment (Resolve.openScope e env) = Resolve.hoistedEnvironment env := by
    cases env <;> rfl
  induction h with
  | script bound => exact .script bound
  | function opens outer _ => exact .function opens outer
  | «catch» _ _ _ _ ih =>
    rw [hopen]
    exact ih
  | «with» _ _ _ _ ih =>
    rw [hopen]
    exact ih

end Environment.Reads

/-! ### Occurrences -/

variable (a) in
/-- What stands for a variable is resolved in an environment. -/
def Mention.Resolved (env : Environment) : Mention → Prop
  | .identifier i => i.Resolved a env
  | .parameter i => ∃ v, a.reference? i = some v ∧
      (ScopeEntry.catch_ i.name v).Valid a (Resolve.current env)
  | .holder id => ∃ v, a.withVariable? id = some v ∧
      (ScopeEntry.with_ v).Valid a (Resolve.current env)
  | .declared i => a.NamesFunction (Resolve.current env) i.id

variable (a origin) in
/-- An occurrence is resolved in the environment that the scopes around it give. -/
def Occurrence.Resolved (o : Occurrence) : Prop :=
  ∃ env, Environment.Reads a origin o.scopes env ∧ o.mention.Resolved a env

theorem Identifier.Resolved.occurrence {scopes : List Scope} {env : Environment} {i : Identifier}
    (h : i.Resolved a env) (hr : Environment.Reads a origin scopes env) :
    ∀ o ∈ [Occurrence.mk (.identifier i) scopes], o.Resolved a origin := by
  rintro o ho
  cases List.mem_singleton.mp ho
  exact ⟨env, hr, h⟩

mutual

/-- The occurrences in an expression are resolved. -/
theorem occurrences_expr {scopes : List Scope} {env : Environment}
    (hr : Environment.Reads a origin scopes env) : ∀ e : Expr,
    e.Resolved a origin env → ∀ o ∈ e.occurrences scopes, o.Resolved a origin
  | .literal .., _ => nofun
  | .this _, _ => nofun
  | .identifier _, h => h.occurrence hr
  | .array _ elements, h => occurrences_elements hr elements h
  | .object _ properties, h => occurrences_properties hr properties h
  | .function f, h => occurrences_func hr f h
  | .unary _ _ argument, h => occurrences_expr hr argument h
  | .update _ _ t _, h => occurrences_target hr t h
  | .binary _ _ left right, h =>
    List.forall_mem_append.mpr ⟨occurrences_expr hr left h.1, occurrences_expr hr right h.2⟩
  | .logical _ _ left right, h =>
    List.forall_mem_append.mpr ⟨occurrences_expr hr left h.1, occurrences_expr hr right h.2⟩
  | .assign _ _ t value, h =>
    List.forall_mem_append.mpr ⟨occurrences_target hr t h.1, occurrences_expr hr value h.2⟩
  | .conditional _ test consequent alternate, h =>
    List.forall_mem_append.mpr ⟨occurrences_expr hr test h.1,
      List.forall_mem_append.mpr ⟨occurrences_expr hr consequent h.2.1,
      occurrences_expr hr alternate h.2.2⟩⟩
  | .call _ callee arguments, h =>
    List.forall_mem_append.mpr ⟨occurrences_expr hr callee h.1, occurrences_exprs hr arguments h.2⟩
  | .construct _ callee arguments, h =>
    List.forall_mem_append.mpr ⟨occurrences_expr hr callee h.1, occurrences_exprs hr arguments h.2⟩
  | .sequence _ expressions, h => occurrences_exprs hr expressions h
  | .member m, h => occurrences_member hr m h

theorem occurrences_exprs {scopes : List Scope} {env : Environment}
    (hr : Environment.Reads a origin scopes env) : ∀ es : List Expr,
    exprsResolved a origin env es → ∀ o ∈ exprOccurrences scopes es, o.Resolved a origin
  | [], _ => nofun
  | e :: rest, h =>
    List.forall_mem_append.mpr ⟨occurrences_expr hr e h.1, occurrences_exprs hr rest h.2⟩

theorem occurrences_option {scopes : List Scope} {env : Environment}
    (hr : Environment.Reads a origin scopes env) : ∀ e : Option Expr,
    optionResolved a origin env e → ∀ o ∈ optionOccurrences scopes e, o.Resolved a origin
  | none, _ => nofun
  | some e, h => occurrences_expr hr e h

theorem occurrences_elements {scopes : List Scope} {env : Environment}
    (hr : Environment.Reads a origin scopes env) :
    ∀ es : List (Option Expr), elementsResolved a origin env es →
      ∀ o ∈ elementOccurrences scopes es, o.Resolved a origin
  | [], _ => nofun
  | none :: rest, h => occurrences_elements hr rest h
  | some e :: rest, h =>
    List.forall_mem_append.mpr ⟨occurrences_expr hr e h.1, occurrences_elements hr rest h.2⟩

theorem occurrences_properties {scopes : List Scope} {env : Environment}
    (hr : Environment.Reads a origin scopes env) :
    ∀ ps : List Property, propertiesResolved a origin env ps →
      ∀ o ∈ propertyOccurrences scopes ps, o.Resolved a origin
  | [], _ => nofun
  | .mk _ _ value :: rest, h =>
    List.forall_mem_append.mpr ⟨occurrences_expr hr value h.1, occurrences_properties hr rest h.2⟩

theorem occurrences_member {scopes : List Scope} {env : Environment}
    (hr : Environment.Reads a origin scopes env) : ∀ m : Member,
    m.Resolved a origin env → ∀ o ∈ m.occurrences scopes, o.Resolved a origin
  | .named _ object _, h => occurrences_expr hr object h
  | .computed _ object property, h =>
    List.forall_mem_append.mpr ⟨occurrences_expr hr object h.1, occurrences_expr hr property h.2⟩

theorem occurrences_target {scopes : List Scope} {env : Environment}
    (hr : Environment.Reads a origin scopes env) : ∀ t : Target,
    t.Resolved a origin env → ∀ o ∈ t.occurrences scopes, o.Resolved a origin
  | .identifier _, h => h.occurrence hr
  | .member m, h => occurrences_member hr m h

theorem occurrences_func {scopes : List Scope} {env : Environment}
    (hr : Environment.Reads a origin scopes env) : ∀ f : Func,
    f.Resolved a origin env → ∀ o ∈ f.occurrences scopes, o.Resolved a origin
  | .mk _ _ _ _ _ _ _ body, h =>
    occurrences_stmts (.function h.1 hr) body h.2

/-- The occurrences in statements are resolved. -/
theorem occurrences_stmts {scopes : List Scope} {env : Environment}
    (hr : Environment.Reads a origin scopes env) : ∀ ss : List Stmt,
    stmtsResolved a origin env ss → ∀ o ∈ stmtOccurrences scopes ss, o.Resolved a origin
  | [], _ => nofun
  | s :: rest, h =>
    List.forall_mem_append.mpr ⟨occurrences_stmt hr s h.1, occurrences_stmts hr rest h.2⟩

theorem occurrences_declarators {scopes : List Scope} {env : Environment}
    (hr : Environment.Reads a origin scopes env) :
    ∀ ds : List Declarator, declaratorsResolved a origin env ds →
      ∀ o ∈ declaratorOccurrences scopes ds, o.Resolved a origin
  | [], _ => nofun
  | .mk _ _ none :: rest, h =>
    List.forall_mem_append.mpr ⟨h.1.occurrence hr, occurrences_declarators hr rest h.2⟩
  | .mk _ _ (some init) :: rest, h =>
    List.forall_mem_append.mpr ⟨h.1.occurrence hr,
      List.forall_mem_append.mpr ⟨occurrences_expr hr init h.2.1,
      occurrences_declarators hr rest h.2.2⟩⟩

theorem occurrences_clauses {scopes : List Scope} {env : Environment}
    (hr : Environment.Reads a origin scopes env) :
    ∀ cs : List SwitchClause, clausesResolved a origin env cs →
      ∀ o ∈ clauseOccurrences scopes cs, o.Resolved a origin
  | [], _ => nofun
  | .mk _ none body :: rest, h =>
    List.forall_mem_append.mpr ⟨occurrences_stmts hr body h.1, occurrences_clauses hr rest h.2⟩
  | .mk _ (some test) body :: rest, h =>
    List.forall_mem_append.mpr ⟨occurrences_expr hr test h.1,
      List.forall_mem_append.mpr ⟨occurrences_stmts hr body h.2.1,
      occurrences_clauses hr rest h.2.2⟩⟩

theorem occurrences_block {scopes : List Scope} {env : Environment}
    (hr : Environment.Reads a origin scopes env) : ∀ b : Block,
    b.Resolved a origin env → ∀ o ∈ b.occurrences scopes, o.Resolved a origin
  | .mk _ body, h => occurrences_stmts hr body h

theorem occurrences_handler {scopes : List Scope} {env : Environment}
    (hr : Environment.Reads a origin scopes env) : ∀ h : Handler,
    h.Resolved a origin env → ∀ o ∈ h.occurrences scopes, o.Resolved a origin
  | .mk _ param body, h => by
    simp only [Handler.Resolved, Handler.occurrences, List.forall_mem_cons] at h ⊢
    obtain ⟨v, hv, hown, hvalid, hbody⟩ := h
    exact ⟨⟨env, hr, v, hv, hvalid⟩, occurrences_block (.catch hv hown hvalid hr) body hbody⟩

theorem occurrences_forInit {scopes : List Scope} {env : Environment}
    (hr : Environment.Reads a origin scopes env) : ∀ init : ForInit,
    init.Resolved a origin env → ∀ o ∈ init.occurrences scopes, o.Resolved a origin
  | .nothing, _ => nofun
  | .declaration _ ds, h => occurrences_declarators hr ds h
  | .expression e, h => occurrences_expr hr e h

theorem occurrences_forInTarget {scopes : List Scope} {env : Environment}
    (hr : Environment.Reads a origin scopes env) :
    ∀ left : ForInTarget, left.Resolved a origin env →
      ∀ o ∈ left.occurrences scopes, o.Resolved a origin
  | .declaration _, h => h.occurrence hr
  | .target t, h => occurrences_target hr t h

/-- The occurrences in a statement are resolved. -/
theorem occurrences_stmt {scopes : List Scope} {env : Environment}
    (hr : Environment.Reads a origin scopes env) : ∀ s : Stmt,
    s.Resolved a origin env → ∀ o ∈ s.occurrences scopes, o.Resolved a origin
  | .expression _ e, h => occurrences_expr hr e h
  | .block b, h => occurrences_block hr b h
  | .empty _, _ => nofun
  | .debugger _, _ => nofun
  | .brk .., _ => nofun
  | .cont .., _ => nofun
  | .ret _ none, _ => nofun
  | .ret _ (some e), h => occurrences_expr hr e h
  | .labeled _ _ body, h => occurrences_stmt hr body h
  | .conditional _ test consequent none, h =>
    List.forall_mem_append.mpr ⟨occurrences_expr hr test h.1, occurrences_stmt hr consequent h.2⟩
  | .conditional _ test consequent (some alternate), h =>
    List.forall_mem_append.mpr ⟨occurrences_expr hr test h.1,
      List.forall_mem_append.mpr ⟨occurrences_stmt hr consequent h.2.1,
      occurrences_stmt hr alternate h.2.2⟩⟩
  | .switch _ discriminant clauses, h =>
    List.forall_mem_append.mpr ⟨occurrences_expr hr discriminant h.1,
      occurrences_clauses hr clauses h.2⟩
  | .throw _ e, h => occurrences_expr hr e h
  | .tryCatch _ b none none, h => occurrences_block hr b h.1
  | .tryCatch _ b none (some f), h =>
    List.forall_mem_append.mpr ⟨occurrences_block hr b h.1, occurrences_block hr f h.2.2⟩
  | .tryCatch _ b (some c) none, h =>
    List.forall_mem_append.mpr ⟨occurrences_block hr b h.1, occurrences_handler hr c h.2.1⟩
  | .tryCatch _ b (some c) (some f), h =>
    List.forall_mem_append.mpr ⟨occurrences_block hr b h.1,
      List.forall_mem_append.mpr ⟨occurrences_handler hr c h.2.1, occurrences_block hr f h.2.2⟩⟩
  | .while _ test body, h =>
    List.forall_mem_append.mpr ⟨occurrences_expr hr test h.1, occurrences_stmt hr body h.2⟩
  | .doWhile _ test body, h =>
    List.forall_mem_append.mpr ⟨occurrences_expr hr test h.1, occurrences_stmt hr body h.2⟩
  | .for _ init test update body, h =>
    List.forall_mem_append.mpr ⟨occurrences_forInit hr init h.1,
      List.forall_mem_append.mpr ⟨occurrences_option hr test h.2.1,
      List.forall_mem_append.mpr ⟨occurrences_option hr update h.2.2.1,
      occurrences_stmt hr body h.2.2.2⟩⟩⟩
  | .forIn _ left right body, h =>
    List.forall_mem_append.mpr ⟨occurrences_forInTarget hr left h.1,
      List.forall_mem_append.mpr ⟨occurrences_expr hr right h.2.1, occurrences_stmt hr body h.2.2⟩⟩
  | .with _ id object body, h => by
    simp only [Stmt.Resolved, Stmt.occurrences, List.forall_mem_append, List.forall_mem_cons] at h ⊢
    obtain ⟨hobject, v, hv, hown, hvalid, hbody⟩ := h
    exact ⟨occurrences_expr hr object hobject, ⟨env, hr, v, hv, hvalid⟩,
      occurrences_stmt (.with hv hown hvalid hr) body hbody⟩
  | .declaration _ ds, h => occurrences_declarators hr ds h
  | .function f, h => by
    simp only [Stmt.Resolved, Stmt.occurrences, List.forall_mem_append] at h ⊢
    refine ⟨?_, occurrences_func hr.hoisted f h.2⟩
    split
    · rintro o ho
      cases List.mem_singleton.mp ho
      exact ⟨env, hr, h.1 _ rfl⟩
    · nofun

end

/-- All occurrences in a script are resolved. -/
theorem Program.Scoped.occurrences {p : Program} (h : p.Scoped a origin) :
    ∀ o ∈ p.occurrences, o.Resolved a origin := by
  refine occurrences_stmts (.script ?_) p.body h.resolved
  exact h.valid.bodies_lt_size 0 List.mem_cons_self

end ScriptEngine
