import ScriptEngine.Proofs.Script.Nodes
import ScriptEngine.Proofs.Script.Numbering
import ScriptEngine.Proofs.Script.Parsing
import ScriptEngine.Proofs.Script.Strictness

/-!
# Properties of what is built

A property that every node has if its parts have it is a property of all nodes that are built from a
parse tree.  Nodes that are built from tokens or count as code of their own are the exceptions:
identifiers, and functions, which may be strict where the code around them is not.

## Main definitions

* `Node.funcs` : the functions in a node.
* `Build.Establishes` : a property of nodes that building establishes.
* `Build.Collects` : a property of functions that building establishes.

## Main statements

* `Build.Establishes.established` : what is built has the property.
* `Build.collects_stmts` : the functions that are built have it.
* `Program.establishes_of_parse` : so has a script that was parsed.
* `Program.inherit_of_parse` : the functions of a script that was parsed inherit strictness.
-/

namespace ScriptEngine

/-! ### Functions in nodes -/

theorem exprFuncs_eq (es : List Expr) : exprFuncs es = es.flatMap Expr.funcs := by
  induction es with
  | nil => rfl
  | cons e es ih => rw [exprFuncs, ih, List.flatMap_cons]

theorem elementFuncs_eq (es : List (Option Expr)) :
    elementFuncs es = (es.filterMap id).flatMap Expr.funcs := by
  induction es with
  | nil => rfl
  | cons e es ih =>
    cases e with
    | none => exact ih
    | some e => exact congrArg (e.funcs ++ ·) ih

theorem stmtFuncs_eq (ss : List Stmt) : stmtFuncs ss = ss.flatMap Stmt.funcs := by
  induction ss with
  | nil => rfl
  | cons s ss ih => rw [stmtFuncs, ih, List.flatMap_cons]

theorem Func.inside_eq (f : Func) : f.inside = f.body.flatMap Stmt.funcs := by
  obtain ⟨⟩ := f
  rw [Func.inside, stmtFuncs_eq]
  rfl

namespace Node

/-- The functions in a node, each with those inside it. -/
def funcs : Node → List Func
  | .program p => p.funcs
  | .function f => f :: f.inside
  | .body _ ss => stmtFuncs ss
  | .statement s => s.funcs
  | .block b => b.funcs
  | .handler h => h.funcs
  | .clause (.mk _ test ss) => optionFuncs test ++ stmtFuncs ss
  | .declaration _ ds => declaratorFuncs ds
  | .declarator (.mk _ _ init) => optionFuncs init
  | .expression e => e.funcs
  | .property (.mk _ _ value) => value.funcs
  | .identifier _ => []

/-- Nodes of which only the parts matter: neither functions nor identifiers. -/
def IsPlain : Node → Prop
  | .function _ | .identifier _ => False
  | _ => True

theorem propertyFuncs_eq (ps : List Property) : propertyFuncs ps = ps.flatMap fun p =>
    (Node.property p).funcs := by
  induction ps with
  | nil => rfl
  | cons p ps ih =>
    obtain ⟨span, key, value⟩ := p
    rw [propertyFuncs, ih, List.flatMap_cons]
    rfl

theorem declaratorFuncs_eq (ds : List Declarator) :
    declaratorFuncs ds = ds.flatMap fun d => (Node.declarator d).funcs := by
  induction ds with
  | nil => rfl
  | cons d ds ih =>
    obtain ⟨span, name, _ | init⟩ := d <;> rw [declaratorFuncs, ih, List.flatMap_cons] <;> rfl

theorem clauseFuncs_eq (cs : List SwitchClause) : clauseFuncs cs = cs.flatMap fun c =>
    (Node.clause c).funcs := by
  induction cs with
  | nil => rfl
  | cons c cs ih =>
    obtain ⟨span, _ | test, body⟩ := c
    · rw [clauseFuncs, ih, List.flatMap_cons]
      rfl
    · rw [clauseFuncs, ih, List.flatMap_cons, funcs, optionFuncs, List.append_assoc]

theorem flatMap_map_funcs {α : Type} (g : α → Node) (l : List α) :
    (l.map g).flatMap funcs = l.flatMap fun x => (g x).funcs :=
  List.flatMap_map ..

theorem Target.funcs_toExpr (t : Target) : t.toExpr.funcs = t.funcs := by
  cases t <;> simp [Target.toExpr]

/-- The functions in an expression are those in its parts. -/
theorem funcs_expression (e : Expr) : e.funcs = e.nodes.flatMap funcs := by
  cases e with
  | array => simp [Expr.nodes, elementFuncs_eq, flatMap_map_funcs, funcs]
  | object => simp [Expr.nodes, propertyFuncs_eq, flatMap_map_funcs]
  | call | construct | sequence => simp [Expr.nodes, exprFuncs_eq, flatMap_map_funcs, funcs]
  | member m => cases m <;> simp [Expr.nodes, funcs]
  | literal | this | identifier | function | unary | binary | logical | conditional =>
    simp [Expr.nodes, funcs]
  | update | assign => simp [Expr.nodes, funcs, Target.funcs_toExpr]

theorem funcs_option (e : Option Expr) :
    (e.toList.map Node.expression).flatMap funcs = optionFuncs e := by
  cases e <;> simp [funcs]

theorem funcs_block (b : Block) : (b.body.map Node.statement).flatMap funcs = b.funcs := by
  obtain ⟨span, body⟩ := b
  simp [Block.body, stmtFuncs_eq, flatMap_map_funcs, funcs]

/-- The functions in a statement are those in its parts. -/
theorem funcs_statement (s : Stmt) : s.funcs = s.nodes.flatMap funcs := by
  cases s with
  | ret _ e => cases e <;> simp [Stmt.nodes, funcs]
  | conditional _ _ _ alternate => cases alternate <;> simp [Stmt.nodes, funcs]
  | «switch» => simp [Stmt.nodes, clauseFuncs_eq, flatMap_map_funcs, funcs]
  | tryCatch _ _ h f => cases h <;> cases f <;> simp [Stmt.nodes, funcs]
  | «for» _ init test update =>
    cases init <;> simp [Stmt.nodes, ForInit.nodes, List.flatMap_append, funcs_option, funcs]
  | forIn _ left => cases left <;> simp [Stmt.nodes, ForInTarget.node, funcs, Target.funcs_toExpr]
  | expression | block | empty | debugger | brk | cont | labeled | throw | «while» | doWhile
  | «with» | declaration | function => simp [Stmt.nodes, funcs]

/-- The functions in a plain node are those in its parts. -/
theorem funcs_parts {n : Node} (h : n.IsPlain) : n.funcs = n.parts.flatMap funcs := by
  cases n with
  | program p => simp [parts, funcs, Program.funcs, stmtFuncs_eq, flatMap_map_funcs]
  | function => exact h.elim
  | body => simp [parts, funcs, stmtFuncs_eq, flatMap_map_funcs]
  | statement s => exact funcs_statement s
  | block b => exact (funcs_block b).symm
  | handler c =>
    obtain ⟨span, param, b⟩ := c
    simp [parts, funcs]
  | clause c =>
    obtain ⟨span, test, ss⟩ := c
    rw [parts, List.flatMap_append, funcs_option, funcs, stmtFuncs_eq, flatMap_map_funcs]
    rfl
  | declaration _ ds =>
    rw [parts, funcs, declaratorFuncs_eq, flatMap_map_funcs]
  | declarator d =>
    obtain ⟨span, x, init⟩ := d
    rw [parts, List.flatMap_cons, funcs_option]
    rfl
  | expression e => exact funcs_expression e
  | property p =>
    obtain ⟨span, key, value⟩ := p
    simp [parts, funcs]
  | identifier => exact h.elim

end Node

namespace Build

open Node

theorem filterMap_dropTrailingHole (es : List (Option Expr)) :
    (dropTrailingHole es).filterMap id = es.filterMap id := by
  unfold dropTrailingHole
  split
  · next hlast =>
    obtain ⟨front, rfl⟩ := List.getLast?_eq_some_iff.mp hlast
    simp
  · rfl

variable {source : List Char} {Q : Tree → Prop} {H : Bool → Node → Prop}

/-- A property of the nodes in code that is strict or not, which building establishes.  What is
known of a parse tree is known of its parts. -/
structure Establishes (source : List Char) (Q : Tree → Prop) (H : Bool → Node → Prop) : Prop where
  part {p : Phrase} {span : Span} {children : List Tree} : Q (.node p span children) →
    ∀ t ∈ children, Q t
  identifier {strict : Bool} {span : Span} {text : List Char} (id : NodeId) :
    Q (.leaf .identifier span text) →
    H strict (.identifier ⟨id, String.ofList text, span⟩)
  node {strict : Bool} {n : Node} : n.IsPlain → (∀ m ∈ n.parts, H strict m) → H strict n
  function {strict : Bool} {f : Func} {span : Span} {body : List Tree} {c c' : Counters} :
    Q (.node .functionBody span body) → f.id < c.function →
      stmts source f.strict body c = .ok (f.body, c') →
    f.strict = (strict || hasStrictDirective (directives source body)) →
    (∀ x ∈ f.identifier?.toList ++ f.params, H strict (.identifier x)) →
    (∀ s ∈ f.body, H f.strict (.statement s)) → H strict (.function f)

variable (source Q H) in
/-- What is built from a tree, and from those in it, has a property. -/
structure Established (t : Tree) : Prop where
  known : Q t
  expr : ∀ u, t.Contains u → ∀ position strict,
    Yields (expr source position strict u) fun e => H strict (.expression e)
  stmt : ∀ u, t.Contains u → ∀ strict, Yields (stmt source strict u) fun s =>
    H strict (.statement s)

namespace Establishes

variable {strict : Bool} {span : Span} {children ts : List Tree} {p : Phrase} {t : Tree}

theorem child (hH : Establishes source Q H) (h : Established source Q H (.node p span children))
    (ht : t ∈ children) : Established source Q H t where
  known := hH.part h.known t ht
  expr u hu := h.expr u (.child ht hu)
  stmt u hu := h.stmt u (.child ht hu)

variable (hH : Establishes source Q H)

include hH

theorem yields_identifier {text : List Char} (h : Q (.leaf .identifier span text)) (strict : Bool) :
    Yields (Build.identifier span text) fun x => H strict (.identifier x) :=
  .step fun id => .pure (hH.identifier id h)

theorem yields_identifiers (strict : Bool) (hts : ∀ t ∈ ts, Q t) :
    Yields (identifiers ts) fun xs => ∀ x ∈ xs, H strict (.identifier x) := by
  induction ts with
  | nil => exact .pure (List.forall_mem_nil _)
  | cons t ts ih =>
    unfold identifiers
    split
    · next heq => cases heq
    · next heq =>
      cases heq
      obtain ⟨ht, hts⟩ := List.forall_mem_cons.mp hts
      exact (hH.yields_identifier ht strict).bind fun x hx => (ih hts).bind fun xs hxs =>
        .pure (List.forall_mem_cons.mpr ⟨hx, hxs⟩)
    · exact .throw _

omit hH in
theorem yields_expr (h : Established source Q H t) {position : Position} (strict : Bool) :
    Yields (Build.expr source position strict t) fun e => H strict (.expression e) :=
  h.expr t (.self t) position strict

omit hH in
theorem yields_stmt (h : Established source Q H t) (strict : Bool) :
    Yields (Build.stmt source strict t) fun s => H strict (.statement s) :=
  h.stmt t (.self t) strict

omit hH in
theorem yields_exprs (strict : Bool) (hts : ∀ t ∈ ts, Established source Q H t) :
    Yields (exprs source strict ts) fun es => ∀ e ∈ es, H strict (.expression e) := by
  induction ts with
  | nil =>
    simp only [exprs]
    exact .pure (List.forall_mem_nil _)
  | cons t ts ih =>
    obtain ⟨ht, hts⟩ := List.forall_mem_cons.mp hts
    simp only [exprs]
    exact (yields_expr ht strict).bind fun e he => (ih hts).bind fun es hes =>
      .pure (List.forall_mem_cons.mpr ⟨he, hes⟩)

omit hH in
theorem yields_stmts (strict : Bool) (hts : ∀ t ∈ ts, Established source Q H t) :
    Yields (stmts source strict ts) fun ss => ∀ s ∈ ss, H strict (.statement s) := by
  induction ts with
  | nil =>
    simp only [stmts]
    exact .pure (List.forall_mem_nil _)
  | cons t ts ih =>
    obtain ⟨ht, hts⟩ := List.forall_mem_cons.mp hts
    simp only [stmts]
    exact (yields_stmt ht strict).bind fun s hs => (ih hts).bind fun ss hss =>
      .pure (List.forall_mem_cons.mpr ⟨hs, hss⟩)

/-- The statements that are the parts of a phrase. -/
theorem yields_parts (h : Established source Q H (.node p span children)) (strict : Bool) :
    Yields (stmts source strict children) fun ss => ∀ s ∈ ss, H strict (.statement s) :=
  yields_stmts strict fun _ => hH.child h

/-! ### Expressions -/

theorem yields_joined {left right : Expr} (operator : Token) (span : Span) (text : List Char)
    (hleft : H strict (.expression left)) (hright : H strict (.expression right)) :
    Yields (joined left operator span text right) fun e => H strict (.expression e) := by
  have hparts : ∀ m ∈ [Node.expression left, .expression right],
      H strict m := by simp [hleft, hright]
  unfold joined
  dsimp only
  split
  · exact .pure (hH.node trivial hparts)
  · exact .pure (hH.node trivial hparts)
  · exact .step fun op => .pure (hH.node trivial hparts)

theorem yields_chain (strict : Bool) :
    ∀ {ts : List Tree} {left : Expr}, H strict (.expression left) →
    (∀ t ∈ ts, Established source Q H t) →
      Yields (chain source strict left ts) fun e => H strict (.expression e) := by
  intro ts left hleft hts
  unfold chain
  split
  · exact .pure hleft
  · next operator span text operand rest =>
    simp only [List.forall_mem_cons] at hts
    refine (yields_expr hts.2.1 strict).bind fun right hright => ?_
    exact (hH.yields_joined operator span text hleft hright).bind fun both hboth =>
      yields_chain strict hboth hts.2.2
  · exact .throw _
termination_by ts => ts.length
decreasing_by rw [‹ts = _›]; exact Nat.lt_add_of_pos_right Nat.two_pos

theorem yields_withSuffixes (strict : Bool) :
    ∀ {ts : List Tree} {base : Expr}, H strict (.expression base) →
    (∀ t ∈ ts, Established source Q H t) →
      Yields (withSuffixes source strict base ts) fun e => H strict (.expression e) := by
  intro ts base hbase hts
  unfold withSuffixes
  split
  · exact .pure hbase
  · next span arguments rest =>
    obtain ⟨harguments, hts⟩ := List.forall_mem_cons.mp hts
    refine (yields_exprs strict fun _ => hH.child harguments).bind fun es hes => ?_
    refine yields_withSuffixes strict (hH.node trivial ?_) hts
    exact List.forall_mem_cons.mpr ⟨hbase, List.forall_mem_map.mpr hes⟩
  · next span _ name rest =>
    refine yields_withSuffixes strict (hH.node trivial ?_) (List.forall_mem_cons.mp hts).2
    exact List.forall_mem_singleton.mpr hbase
  · next span property rest =>
    obtain ⟨hsuffix, hts⟩ := List.forall_mem_cons.mp hts
    refine (yields_expr (hH.child hsuffix List.mem_cons_self) strict).bind fun p hp => ?_
    refine yields_withSuffixes strict (hH.node trivial ?_) hts
    exact List.forall_mem_cons.mpr ⟨hbase, List.forall_mem_singleton.mpr hp⟩
  · exact .throw _
termination_by ts => ts.length
decreasing_by all_goals simp [‹ts = _›]

theorem yields_arrayElements (strict : Bool) :
    ∀ {ts : List Tree}, (∀ t ∈ ts, Established source Q H t) →
    Yields (arrayElements source strict ts) fun es => ∀ e ∈ es.filterMap id,
      H strict (.expression e) := by
  intro ts hts
  unfold arrayElements
  split
  · exact .pure (List.forall_mem_nil _)
  · exact (yields_arrayElements strict (List.forall_mem_cons.mp hts).2).bind fun es hes => .pure hes
  · obtain ⟨helement, hts⟩ := List.forall_mem_cons.mp hts
    exact (yields_expr (hH.child helement List.mem_cons_self) strict).bind fun e he =>
      (yields_arrayElements strict hts).bind fun es hes =>
        .pure (List.forall_mem_cons.mpr ⟨he, hes⟩)
  · exact .throw _
termination_by ts => ts.length
decreasing_by all_goals simp [‹ts = _›]

theorem yields_objectProperties (strict : Bool) :
    ∀ {ts : List Tree}, (∀ t ∈ ts, Established source Q H t) →
    Yields (objectProperties source strict ts) fun ps => ∀ p ∈ ps, H strict (.property p) := by
  intro ts hts
  unfold objectProperties
  split
  · exact .pure (List.forall_mem_nil _)
  · obtain ⟨hproperty, hts⟩ := List.forall_mem_cons.mp hts
    refine .step fun key => (yields_expr (hH.child hproperty (by simp)) strict).bind fun v hv => ?_
    refine (yields_objectProperties strict hts).bind fun ps hps =>
      .pure (List.forall_mem_cons.mpr ⟨?_, hps⟩)
    exact hH.node trivial (List.forall_mem_singleton.mpr hv)
  · exact .throw _
termination_by ts => ts.length
decreasing_by all_goals simp [‹ts = _›]

theorem yields_func (strict isExpression : Bool) (span : Span)
    (hts : ∀ t ∈ ts, Established source Q H t) :
    Yields (func source strict isExpression span ts) fun f => H strict (.function f) := by
  intro c f c' hf
  unfold func at hf
  split at hf
  · simp only [List.forall_mem_cons] at hts
    obtain ⟨id, c₁, hid, hf⟩ := bind_eq_ok hf
    obtain ⟨body, c₂, hrun, hf⟩ := bind_eq_ok hf
    cases hf
    exact hH.function hts.2.1.known (lt_of_nextFunction hid) hrun rfl (List.forall_mem_nil _)
      (hH.yields_parts hts.2.1 _ hrun)
  · simp only [List.forall_mem_cons] at hts
    obtain ⟨id, c₁, hid, hf⟩ := bind_eq_ok hf
    obtain ⟨name, c₂, hname, hf⟩ := bind_eq_ok hf
    obtain ⟨body, c₃, hrun, hf⟩ := bind_eq_ok hf
    cases hf
    have hlt := (lt_of_nextFunction hid).trans_le ((numbered_identifier _ _).function_le hname)
    exact hH.function hts.2.2.1.known hlt hrun rfl
      (List.forall_mem_singleton.mpr (hH.yields_identifier hts.2.1.known strict hname))
      (hH.yields_parts hts.2.2.1 _ hrun)
  · simp only [List.forall_mem_cons] at hts
    obtain ⟨id, c₁, hid, hf⟩ := bind_eq_ok hf
    obtain ⟨params, c₂, hparams, hf⟩ := bind_eq_ok hf
    obtain ⟨body, c₃, hrun, hf⟩ := bind_eq_ok hf
    cases hf
    have hlt := (lt_of_nextFunction hid).trans_le ((numbered_identifiers _).function_le hparams)
    exact hH.function hts.2.2.1.known hlt hrun rfl
      (hH.yields_identifiers strict (hH.part hts.2.1.known) hparams)
        (hH.yields_parts hts.2.2.1 _ hrun)
  · simp only [List.forall_mem_cons] at hts
    obtain ⟨id, c₁, hid, hf⟩ := bind_eq_ok hf
    obtain ⟨name, c₂, hname, hf⟩ := bind_eq_ok hf
    obtain ⟨params, c₃, hparams, hf⟩ := bind_eq_ok hf
    obtain ⟨body, c₄, hrun, hf⟩ := bind_eq_ok hf
    cases hf
    have hlt := (lt_of_nextFunction hid).trans_le
        (((numbered_identifier _ _).function_le hname).trans
      ((numbered_identifiers _).function_le hparams))
    exact hH.function hts.2.2.2.1.known hlt hrun rfl
      (List.forall_mem_cons.mpr ⟨hH.yields_identifier hts.2.1.known strict hname,
        hH.yields_identifiers strict (hH.part hts.2.2.1.known) hparams⟩)
          (hH.yields_parts hts.2.2.2.1 _ hrun)
  · cases hf

/-- The expression of a phrase of which the parts are known. -/
theorem yields_expr_node {position : Position} (strict : Bool)
    (hparts : ∀ t ∈ children, Established source Q H t) :
    Yields (Build.expr source position strict (.node p span children)) fun e =>
      H strict (.expression e) := by
  -- an expression that is built from one part of the phrase
  have part {t : Tree} {position : Position} (ht : t ∈ children) :
      Yields (Build.expr source position strict t) fun e => H strict (.expression e) :=
    yields_expr (hparts t ht) strict
  unfold Build.expr
  refine .guarded ?_ span
  split
  · exact part (by simp)
  · exact (yields_exprs strict hparts).bind fun es hes =>
      .pure (hH.node trivial (List.forall_mem_map.mpr hes))
  · exact part (by simp)
  · next left _ opSpan op right =>
    refine (part (t := left) (by simp)).bind fun place hplace => ?_
    split
    · exact .throw _
    · next target htarget =>
      refine .step fun op => (part (t := right) (by simp)).bind fun value hvalue =>
        .pure (hH.node trivial ?_)
      rw [parts, Expr.nodes, Target.toExpr_of_target? htarget]
      exact List.forall_mem_cons.mpr ⟨hplace, List.forall_mem_singleton.mpr hvalue⟩
  · exact part (by simp)
  · next test consequent alternate =>
    refine (part (t := test) (by simp)).bind fun t ht => ?_
    refine (part (t := consequent) (by simp)).bind fun c hc => ?_
    refine (part (t := alternate) (by simp)).bind fun a ha => .pure (hH.node trivial ?_)
    simp [parts, Expr.nodes, ht, hc, ha]
  · exact part (by simp)
  · next opSpan op operand =>
    refine (part (t := operand) (by simp)).bind fun argument hargument => ?_
    split
    · split
      · exact .throw _
      · next target htarget =>
        refine .pure (hH.node trivial ?_)
        rw [parts, Expr.nodes, Target.toExpr_of_target? htarget]
        exact List.forall_mem_singleton.mpr hargument
    · exact .step fun op => .pure (hH.node trivial (List.forall_mem_singleton.mpr hargument))
  · exact part (by simp)
  · next operand _ opSpan op =>
    refine (part (t := operand) (by simp)).bind fun argument hargument => ?_
    split
    · exact .throw _
    · next target htarget =>
      refine .step fun op => .pure (hH.node trivial ?_)
      rw [parts, Expr.nodes, Target.toExpr_of_target? htarget]
      exact List.forall_mem_singleton.mpr hargument
  · next head suffixes =>
    obtain ⟨hhead, hsuffixes⟩ := List.forall_mem_cons.mp hparts
    exact (yields_expr hhead strict).bind fun base hbase =>
      hH.yields_withSuffixes strict hbase hsuffixes
  · next head suffixes =>
    obtain ⟨hhead, hsuffixes⟩ := List.forall_mem_cons.mp hparts
    exact (yields_expr hhead strict).bind fun base hbase =>
      hH.yields_withSuffixes strict hbase hsuffixes
  · next keyword callee argumentSpan arguments =>
    have harguments := hparts (.node .arguments argumentSpan arguments) (by simp)
    refine (part (t := callee) (by simp)).bind fun f hf => ?_
    refine (yields_exprs strict fun _ => hH.child harguments).bind fun es hes =>
      .pure (hH.node trivial ?_)
    exact List.forall_mem_cons.mpr ⟨hf, List.forall_mem_map.mpr hes⟩
  · next callee =>
    refine (part (t := callee) (by simp)).bind fun f hf => .pure (hH.node trivial ?_)
    exact List.forall_mem_singleton.mpr hf
  · exact part (by simp)
  · exact part (by simp)
  · refine (hH.yields_arrayElements strict hparts).bind fun es hes => .pure (hH.node trivial ?_)
    rw [parts, Expr.nodes, filterMap_dropTrailingHole]
    exact List.forall_mem_map.mpr hes
  · exact (hH.yields_objectProperties strict hparts).bind fun ps hps =>
      .pure (hH.node trivial (List.forall_mem_map.mpr hps))
  · exact (hH.yields_func strict true span hparts).map fun f hf =>
      hH.node trivial (List.forall_mem_singleton.mpr hf)
  · obtain ⟨hfirst, hrest⟩ := List.forall_mem_cons.mp hparts
    refine .guarded ?_ span
    exact (yields_expr hfirst strict).bind fun left hleft => hH.yields_chain strict hleft hrest
  · exact .throw _

/-! ### Parts of statements -/

theorem yields_declarators (strict : Bool) :
    ∀ {ts : List Tree}, (∀ t ∈ ts, Established source Q H t) →
    Yields (declarators source strict ts) fun ds => ∀ d ∈ ds, H strict (.declarator d) := by
  intro ts hts
  unfold declarators
  split
  · exact .pure (List.forall_mem_nil _)
  · obtain ⟨hd, hts⟩ := List.forall_mem_cons.mp hts
    refine (hH.yields_identifier (hH.child hd (by simp)).known strict).bind fun x hx => ?_
    refine (yields_declarators strict hts).bind fun ds hds =>
      .pure (List.forall_mem_cons.mpr ⟨?_, hds⟩)
    exact hH.node trivial (List.forall_mem_singleton.mpr hx)
  · next init _ =>
    obtain ⟨hd, hts⟩ := List.forall_mem_cons.mp hts
    refine (hH.yields_identifier (hH.child hd (by simp)).known strict).bind fun x hx => ?_
    refine (yields_expr (hH.child hd (t := init) (by simp)) strict).bind fun e he => ?_
    refine (yields_declarators strict hts).bind fun ds hds =>
      .pure (List.forall_mem_cons.mpr ⟨?_, hds⟩)
    exact hH.node trivial (List.forall_mem_cons.mpr ⟨hx, List.forall_mem_singleton.mpr he⟩)
  · exact .throw _
termination_by ts => ts.length
decreasing_by all_goals simp [‹ts = _›]

/-- A declaration of variables. -/
theorem yields_declaration (strict : Bool) (listSpan : Span)
    (h : Established source Q H (.node p span children)) :
    Yields (declarators source strict children) fun ds => H strict (.declaration listSpan ds) :=
  fun _ _ _ hrun => hH.node trivial
    (List.forall_mem_map.mpr (hH.yields_declarators strict (fun _ => hH.child h) hrun))

theorem yields_block (strict : Bool) (ht : Established source Q H t) :
    Yields (block source strict t) fun b => H strict (.block b) := by
  unfold block
  split
  · exact (hH.yields_parts ht strict).bind fun ss hss =>
      .pure (hH.node trivial (List.forall_mem_map.mpr hss))
  · exact .throw _

theorem yields_catchClause (strict : Bool) (ht : Established source Q H t) :
    Yields (catchClause source strict t) fun h => H strict (.handler h) := by
  unfold catchClause
  split
  · next body =>
    refine (hH.yields_identifier (hH.child ht (by simp)).known strict).bind fun x hx => ?_
    refine (hH.yields_block strict (hH.child ht (t := body) (by simp))).bind fun b hb =>
      .pure (hH.node trivial ?_)
    exact List.forall_mem_cons.mpr ⟨hx, List.forall_mem_singleton.mpr hb⟩
  · exact .throw _

theorem yields_forInTarget (strict : Bool) (ht : Established source Q H (.node p span children)) :
    Yields (forInTarget source strict span children) fun left => H strict left.node := by
  unfold forInTarget
  split
  · exact (hH.yields_identifier (hH.child ht (by simp)).known strict).map fun x hx => hx
  · next place =>
    refine (yields_expr (hH.child ht (t := place) (by simp)) strict).bind fun e he => ?_
    split
    · next target htarget =>
      refine .pure ?_
      rwa [ForInTarget.node, Target.toExpr_of_target? htarget]
    · exact .throw _
  · exact .throw _

theorem yields_switchClauses (strict : Bool) : ∀ {ts : List Tree} {hasDefault : Bool},
    (∀ t ∈ ts, Established source Q H t) →
      Yields (switchClauses source strict hasDefault ts) fun cs =>
        ∀ c ∈ cs, H strict (.clause c) := by
  intro ts hasDefault hts
  unfold switchClauses
  split
  · exact .pure (List.forall_mem_nil _)
  · next test body rest =>
    obtain ⟨hclause, hts⟩ := List.forall_mem_cons.mp hts
    refine (yields_expr (hH.child hclause (t := test) (by simp)) strict).bind fun e he => ?_
    refine (yields_stmts strict fun t ht => hH.child hclause (by simp [ht])).bind fun ss hss => ?_
    refine (yields_switchClauses strict hts).bind fun cs hcs =>
      .pure (List.forall_mem_cons.mpr ⟨?_, hcs⟩)
    exact hH.node trivial (List.forall_mem_cons.mpr ⟨he, List.forall_mem_map.mpr hss⟩)
  · obtain ⟨hclause, hts⟩ := List.forall_mem_cons.mp hts
    split
    · exact .throw _
    · refine (yields_stmts strict fun t ht => hH.child hclause (by simp [ht])).bind fun ss hss => ?_
      refine (yields_switchClauses strict hts).bind fun cs hcs =>
        .pure (List.forall_mem_cons.mpr ⟨?_, hcs⟩)
      exact hH.node trivial (List.forall_mem_map.mpr hss)
  · exact .throw _
termination_by ts => ts.length
decreasing_by all_goals simp [‹ts = _›]

/-- A `for` loop, of which some parts have been built. -/
theorem yields_forLoop (strict : Bool) (span : Span) : ∀ {ts : List Tree} (init : ForInit)
    {test update : Option Expr}, (∀ m ∈ init.nodes, H strict m) →
    (∀ e ∈ test, H strict (.expression e)) →
      (∀ e ∈ update, H strict (.expression e)) → (∀ t ∈ ts, Established source Q H t) →
        Yields (forLoop source strict span init test update ts) fun s =>
          H strict (.statement s) := by
  intro ts init test update hinit htest hupdate hts
  unfold forLoop
  split
  · next initSpan _ listSpan ds rest =>
    obtain ⟨hpart, hts⟩ := List.forall_mem_cons.mp hts
    have hlist := hH.child hpart (t := .node .variableDeclarationList listSpan ds) (by simp)
    refine (hH.yields_declaration strict initSpan hlist).bind fun ds hds => ?_
    exact yields_forLoop strict span (.declaration initSpan ds) (List.forall_mem_singleton.mpr hds)
      htest hupdate hts
  · obtain ⟨hpart, hts⟩ := List.forall_mem_cons.mp hts
    refine (yields_expr (hH.child hpart List.mem_cons_self) strict).bind fun e he => ?_
    exact yields_forLoop strict span (.expression e) (List.forall_mem_singleton.mpr he)
      htest hupdate hts
  · obtain ⟨hpart, hts⟩ := List.forall_mem_cons.mp hts
    refine (yields_expr (hH.child hpart List.mem_cons_self) strict).bind fun e he => ?_
    exact yields_forLoop strict span init hinit (by simpa using he) hupdate hts
  · obtain ⟨hpart, hts⟩ := List.forall_mem_cons.mp hts
    refine (yields_expr (hH.child hpart List.mem_cons_self) strict).bind fun e he => ?_
    exact yields_forLoop strict span init hinit htest (by simpa using he) hts
  · refine (yields_stmt (hts _ List.mem_cons_self) strict).bind fun s hs =>
      .pure (hH.node trivial ?_)
    simp only [parts, Stmt.nodes, List.forall_mem_append, List.forall_mem_map, Option.mem_toList,
      List.forall_mem_singleton]
    exact ⟨hinit, htest, hupdate, hs⟩
  · exact .throw _
termination_by ts => ts.length
decreasing_by all_goals simp [‹ts = _›]

/-- The statement of a phrase of which the parts are known. -/
theorem yields_stmt_node (strict : Bool) (hparts : ∀ t ∈ children, Established source Q H t) :
    Yields (Build.stmt source strict (.node p span children)) fun s => H strict (.statement s) := by
  have part {t : Tree} {position : Position} (ht : t ∈ children) :
      Yields (Build.expr source position strict t) fun e => H strict (.expression e) :=
    yields_expr (hparts t ht) strict
  have inner {t : Tree} (ht : t ∈ children) : Yields (Build.stmt source strict t) fun s =>
      H strict (.statement s) := yields_stmt (hparts t ht) strict
  have block (blockSpan : Span) {body : List Tree} (ht : .node .block blockSpan body ∈ children) :
      Yields (stmts source strict body) fun ss => H strict (.block (.mk blockSpan ss)) :=
        fun _ _ _ h =>
    hH.node trivial (List.forall_mem_map.mpr (hH.yields_parts (hparts _ ht) strict h))
  unfold Build.stmt
  refine .guarded ?_ span
  split
  · exact (hH.yields_func strict false span hparts).map fun f hf =>
      hH.node trivial (List.forall_mem_singleton.mpr hf)
  · refine (yields_stmts strict hparts).bind fun ss hss => .pure (hH.node trivial ?_)
    exact List.forall_mem_singleton.mpr (hH.node trivial (List.forall_mem_map.mpr hss))
  · next listSpan ds =>
    have hlist := hparts (.node .variableDeclarationList listSpan ds) (by simp)
    exact (hH.yields_declaration strict span hlist).bind fun ds hds =>
      .pure (hH.node trivial (List.forall_mem_singleton.mpr hds))
  · exact .pure (hH.node trivial (List.forall_mem_nil _))
  · exact .pure (hH.node trivial (List.forall_mem_nil _))
  · exact (part (by simp)).bind fun e he =>
      .pure (hH.node trivial (List.forall_mem_singleton.mpr he))
  · next test consequent =>
    refine (part (t := test) (by simp)).bind fun t ht => ?_
    refine (inner (t := consequent) (by simp)).bind fun c hc => .pure (hH.node trivial ?_)
    simp [parts, Stmt.nodes, ht, hc]
  · next test consequent _ alternate =>
    refine (part (t := test) (by simp)).bind fun t ht => ?_
    refine (inner (t := consequent) (by simp)).bind fun c hc => ?_
    refine (inner (t := alternate) (by simp)).bind fun a ha => .pure (hH.node trivial ?_)
    simp [parts, Stmt.nodes, ht, hc, ha]
  · next body _ test =>
    refine (inner (t := body) (by simp)).bind fun b hb => ?_
    refine (part (t := test) (by simp)).bind fun t ht => .pure (hH.node trivial ?_)
    simp [parts, Stmt.nodes, ht, hb]
  · next test body =>
    refine (part (t := test) (by simp)).bind fun t ht => ?_
    refine (inner (t := body) (by simp)).bind fun b hb => .pure (hH.node trivial ?_)
    simp [parts, Stmt.nodes, ht, hb]
  · exact hH.yields_forLoop strict span .nothing (List.forall_mem_nil _) (by simp) (by simp)
      (List.forall_mem_cons.mp hparts).2
  · next phrase bindingSpan binding _ right body =>
    refine (hH.yields_forInTarget strict (hparts (.node phrase bindingSpan binding) (by simp))).bind
      fun l hl => ?_
    refine (part (t := right) (by simp)).bind fun r hr => ?_
    refine (inner (t := body) (by simp)).bind fun b hb => .pure (hH.node trivial ?_)
    simp [parts, Stmt.nodes, hl, hr, hb]
  · exact .pure (hH.node trivial (List.forall_mem_nil _))
  · exact .pure (hH.node trivial (List.forall_mem_nil _))
  · exact .pure (hH.node trivial (List.forall_mem_nil _))
  · exact .pure (hH.node trivial (List.forall_mem_nil _))
  · exact .pure (hH.node trivial (List.forall_mem_nil _))
  · next e =>
    exact (part (t := e) (by simp)).bind fun e he =>
      .pure (hH.node trivial (List.forall_mem_singleton.mpr he))
  · next object body =>
    refine (part (t := object) (by simp)).bind fun o ho => ?_
    refine (inner (t := body) (by simp)).bind fun b hb => .step fun id => .pure (hH.node trivial ?_)
    simp [parts, Stmt.nodes, ho, hb]
  · next discriminant clauses =>
    refine (part (t := discriminant) (by simp)).bind fun d hd => ?_
    refine (hH.yields_switchClauses strict fun t ht => hparts t (by simp [ht])).bind fun cs hcs =>
      .pure (hH.node trivial ?_)
    exact List.forall_mem_cons.mpr ⟨hd, List.forall_mem_map.mpr hcs⟩
  · next e =>
    exact (part (t := e) (by simp)).bind fun e he =>
      .pure (hH.node trivial (List.forall_mem_singleton.mpr he))
  · next blockSpan body finallySpan keyword finalizer =>
    have hfinally := hparts (.node .finallyClause finallySpan [keyword, finalizer]) (by simp)
    refine (block blockSpan (by simp)).bind fun ss hss => ?_
    refine (hH.yields_block strict (hH.child hfinally (by simp))).bind fun f hf =>
      .pure (hH.node trivial ?_)
    simp [parts, Stmt.nodes, hss, hf]
  · next blockSpan body handler _ =>
    refine (block blockSpan (by simp)).bind fun ss hss => ?_
    refine (hH.yields_catchClause strict (hparts handler (by simp))).bind fun h hh =>
      .pure (hH.node trivial ?_)
    simp [parts, Stmt.nodes, hss, hh]
  · next blockSpan body handler finallySpan keyword finalizer =>
    have hfinally := hparts (.node .finallyClause finallySpan [keyword, finalizer]) (by simp)
    refine (block blockSpan (by simp)).bind fun ss hss => ?_
    refine (hH.yields_catchClause strict (hparts handler (by simp))).bind fun h hh => ?_
    refine (hH.yields_block strict (hH.child hfinally (by simp))).bind fun f hf =>
      .pure (hH.node trivial ?_)
    simp [parts, Stmt.nodes, hss, hh, hf]
  · next body =>
    exact (inner (t := body) (by simp)).bind fun b hb =>
      .pure (hH.node trivial (List.forall_mem_singleton.mpr hb))
  · exact .throw _

theorem yields_leaf {token : Token} {text : List Char} (h : Q (.leaf token span text))
    (strict : Bool) :
    Yields (leaf token span text) fun e => H strict (.expression e) := by
  have hleaf (v : Literal) : H strict (.expression (.literal span v)) :=
    hH.node trivial (List.forall_mem_nil _)
  unfold leaf
  split
  · exact .pure (hH.node trivial (List.forall_mem_nil _))
  · exact (hH.yields_identifier h strict).map fun x hx =>
      hH.node trivial (List.forall_mem_singleton.mpr hx)
  · exact .pure (hleaf _)
  · exact .pure (hleaf _)
  · exact .step fun n => .pure (hleaf _)
  · exact .pure (hleaf _)
  · exact .pure (hleaf _)
  · exact .throw _

/-- What is built from a tree that is known has the property. -/
theorem established (t : Tree) (h : Q t) : Established source Q H t := by
  match t with
  | .leaf token span text =>
    refine ⟨h, fun u hu position strict => ?_, fun u hu strict => ?_⟩ <;> cases hu
    · unfold Build.expr
      exact (hH.yields_leaf h strict).guarded span
    · unfold Build.stmt
      exact .throw _
  | .finish offset =>
    refine ⟨h, fun u hu position strict => ?_, fun u hu strict => ?_⟩ <;> cases hu
    · unfold Build.expr
      exact .throw _
    · unfold Build.stmt
      exact .throw _
  | .node p span children =>
    have hparts (u : Tree) (hu : u ∈ children) : Established source Q H u :=
      established u (hH.part h u hu)
    refine ⟨h, fun u hu position strict => ?_, fun u hu strict => ?_⟩
    · cases hu with
      | self => exact hH.yields_expr_node strict hparts
      | child mem hu => exact (hparts _ mem).expr u hu position strict
    · cases hu with
      | self => exact hH.yields_stmt_node strict hparts
      | child mem hu => exact (hparts _ mem).stmt u hu strict
termination_by sizeOf t
decreasing_by
  have := List.sizeOf_lt_of_mem hu
  simp only [Tree.node.sizeOf_spec]
  omega

theorem yields (strict : Bool) (ts : List Tree) (h : ∀ t ∈ ts, Q t) :
    Yields (stmts source strict ts) fun ss => ∀ s ∈ ss, H strict (.statement s) :=
  yields_stmts strict fun t ht => hH.established t (h t ht)

end Establishes

/-! ### Functions -/

/-- A property of the functions in code that is strict or not, which building establishes: it holds
of no functions, of those of two pieces of code together, and of a function and those inside it, if
it holds of those inside it.  What is known of a parse tree is known of its parts. -/
structure Collects (source : List Char) (Q : Tree → Prop) (G : Bool → List Func → Prop) : Prop where
  part {p : Phrase} {span : Span} {children : List Tree} : Q (.node p span children) →
    ∀ t ∈ children, Q t
  nil {strict : Bool} : G strict []
  append {strict : Bool} {fs fs' : List Func} : G strict fs → G strict fs' → G strict (fs ++ fs')
  function {strict : Bool} {f : Func} {span : Span} {body : List Tree} {c c' : Counters} :
    Q (.node .functionBody span body) → f.id < c.function →
      stmts source f.strict body c = .ok (f.body, c') →
    f.strict = (strict || hasStrictDirective (directives source body)) → G f.strict f.inside →
    G strict (f :: f.inside)

variable {G : Bool → List Func → Prop}

theorem Collects.flatMap {α : Type} (hG : Collects source Q G) {strict : Bool} {g : α → List Func}
    {l : List α} (h : ∀ x ∈ l, G strict (g x)) : G strict (l.flatMap g) := by
  induction l with
  | nil => exact hG.nil
  | cons x l ih =>
    obtain ⟨hx, hl⟩ := List.forall_mem_cons.mp h
    rw [List.flatMap_cons]
    exact hG.append hx (ih hl)

theorem Collects.establishes (hG : Collects source Q G) :
    Establishes source Q fun strict n => G strict n.funcs where
  part := hG.part
  identifier _ _ := hG.nil
  node hplain hparts := by
    rw [funcs_parts hplain]
    exact hG.flatMap hparts
  function {_ f _ _ _ _} hbody hlt hrun hstrict _ hinside := by
    refine hG.function hbody hlt hrun hstrict ?_
    rw [Func.inside_eq]
    exact hG.flatMap hinside

/-- The functions in statements are collected from their parse trees. -/
theorem collects_stmts (hG : Collects source Q G) (strict : Bool) (ts : List Tree)
    (h : ∀ t ∈ ts, Q t) :
    Yields (stmts source strict ts) fun ss => G strict (stmtFuncs ss) := by
  intro c ss c' hrun
  rw [stmtFuncs_eq]
  exact hG.flatMap (hG.establishes.yields strict ts h hrun)

theorem collects_inherit (source : List Char) : Collects source (fun _ => True) Func.Inherit where
  part _ _ _ := trivial
  nil := Func.Inherit.nil
  append h h' := Func.Inherit.append.mpr ⟨h, h'⟩
  function _ _ _ hstrict hinside := .function (fun h => by rw [hstrict, h]; rfl) hinside

/-- The functions in a node are nodes in it. -/
theorem establishes_contains (source : List Char) :
    Establishes source (fun _ => True) fun _ n => ∀ f ∈ n.funcs, n.Contains (.function f) where
  part _ _ _ := trivial
  identifier _ _ _ hf := absurd hf List.not_mem_nil
  node hplain hparts f hf := by
    rw [funcs_parts hplain] at hf
    obtain ⟨m, hm, hf⟩ := List.mem_flatMap.mp hf
    exact .part hm (hparts m hm f hf)
  function {_ g _ _ _ _} _ _ _ _ _ hbody f hf := by
    rcases List.mem_cons.mp hf with rfl | hf
    · exact .self _
    · rw [Func.inside_eq] at hf
      obtain ⟨s, hs, hf⟩ := List.mem_flatMap.mp hf
      exact .part (m := .body g.bodySpan g.body)
        (by simp [parts]) (.part (List.mem_map_of_mem hs) (hbody s hs f hf))

end Build

/-! ### Scripts -/

section

variable {source : String} {p : Program}

/-- What building establishes holds of a script that was parsed. -/
theorem Program.establishes_of_parse {Q : Tree → Prop} {H : Bool → Node → Prop}
    (hH : Build.Establishes source.toList Q H) (hQ : ∀ t : Tree, t.Parsed source.toList → Q t)
    (h : Program.parse source = .ok p) : H p.strict (.program p) := by
  obtain ⟨span, children, next, furthest, elements, counters, hscript, hsub, -, -, hrun⟩ :=
    Program.built_of_parse h
  obtain ⟨_, _, htrees, hparsed⟩ := Parse.parsed_of_script hscript
  cases htrees
  have helements (t) (ht : t ∈ elements) : Q t :=
    hQ t (hparsed.of_contains (.child (hsub.subset ht) (.self t)))
  exact hH.node trivial (List.forall_mem_map.mpr (hH.yields p.strict elements helements hrun))

/-- The functions of a script that was parsed inherit strictness from the code around them. -/
theorem Program.inherit_of_parse (h : Program.parse source = .ok p) :
    Func.Inherit p.strict p.funcs :=
  Program.establishes_of_parse (Build.collects_inherit source.toList).establishes
    (fun _ _ => trivial) h

/-- The functions of a script that was parsed are nodes in it. -/
theorem Program.contains_of_mem_funcs (h : Program.parse source = .ok p) {f : Func}
    (hf : f ∈ p.funcs) :
    (Node.program p).Contains (.function f) :=
  Program.establishes_of_parse (Build.establishes_contains source.toList)
    (fun _ _ => trivial) h f hf

end

end ScriptEngine
