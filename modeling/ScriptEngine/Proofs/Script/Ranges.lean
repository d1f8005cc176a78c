import ScriptEngine.Proofs.Script.Ids
import ScriptEngine.Proofs.Script.Nodes

/-!
# Ranges of a script

The parts of every node of a script stand one after the other in its range.  A node that is joined
from its operands begins with the first of them and ends with the last one; both stand in the range
of the parse tree that they were built from, which may be wider, because of parentheses, blanks and
comments.  So what is shown of an expression that is built is that it stands between the two ends of
its parse tree, not that it has its range.

## Main definitions

* `Tree.Ranged` : what is built from a parse tree stands between its two ends.

## Main statements

* `Tree.Parsed.ranged` : so does everything that is built from a parsed tree.
* `Program.ranges_of_parse` : the ranges in a script that was parsed.
-/

namespace ScriptEngine

open Node

/-! ### Building -/

/-- The parts of a parsed tree stand one after the other, and what is built from a tree in it stands
between the two ends of that tree. -/
structure Tree.Ranged (source : List Char) (t : Tree) : Prop where
  parsed : t.Parsed source
  nested : t.Nested
  expr : ∀ u, t.Contains u → ∀ position strict,
    Build.Yields (Build.expr source position strict u) fun e =>
    Row u.span.start u.span.stop [.expression e]
  stmt : ∀ u, t.Contains u → ∀ strict, Build.Yields (Build.stmt source strict u) fun s =>
    Row u.span.start u.span.stop [.statement s]

namespace Tree.Ranged

variable {source : List Char} {p : Phrase} {span : Span} {children : List Tree} {t : Tree}

theorem child (h : Ranged source (.node p span children)) (ht : t ∈ children) :
    Ranged source t where
  parsed := h.parsed.of_contains (.child ht (.self t))
  nested := h.nested.parts t ht
  expr u hu := h.expr u (.child ht hu)
  stmt u hu := h.stmt u (.child ht hu)

end Tree.Ranged

namespace Build

open ScriptEngine.Tree

variable {source : List Char} {first last : Nat} {t : Tree} {ts : List Tree}

theorem row_identifier {span : Span} (hle : span.start ≤ span.stop) (text : List Char) :
    Yields (identifier span text) fun x => Row span.start span.stop [.identifier x] :=
  .step fun id => .pure (Row.node (n := .identifier ⟨id, String.ofList text, span⟩) (.nil hle))

theorem row_expr (h : t.Ranged source) {position : Position} (strict : Bool) :
    Yields (expr source position strict t) fun e => Row t.span.start t.span.stop [.expression e] :=
  h.expr t (.self t) position strict

theorem row_stmt (h : t.Ranged source) (strict : Bool) : Yields (stmt source strict t) fun s =>
    Row t.span.start t.span.stop [.statement s] :=
  h.stmt t (.self t) strict

theorem row_identifiers (horder : InOrder first last ts) : Yields (identifiers ts) fun xs =>
    Row first last (xs.map .identifier) := by
  induction ts generalizing first with
  | nil => exact .pure (.nil horder)
  | cons t ts ih =>
    unfold identifiers
    split
    · next heq => cases heq
    · next heq =>
      cases heq
      exact (row_identifier horder.2.1 _).bind fun x hx => (ih horder.2.2).bind fun xs hxs =>
        .pure ((hx.mono horder.1 le_rfl).cons hxs le_rfl)
    · exact .throw _

theorem row_exprs (strict : Bool) (horder : InOrder first last ts)
    (hts : ∀ t ∈ ts, t.Ranged source) :
    Yields (exprs source strict ts) fun es => Row first last (es.map .expression) := by
  induction ts generalizing first with
  | nil =>
    simp only [exprs]
    exact .pure (.nil horder)
  | cons t ts ih =>
    obtain ⟨ht, hts⟩ := List.forall_mem_cons.mp hts
    simp only [exprs]
    exact (row_expr ht strict).bind fun e he => (ih horder.2.2 hts).bind fun es hes =>
      .pure ((he.mono horder.1 le_rfl).cons hes le_rfl)

theorem row_stmts (strict : Bool) (horder : InOrder first last ts)
    (hts : ∀ t ∈ ts, t.Ranged source) :
    Yields (stmts source strict ts) fun ss => Row first last (ss.map .statement) := by
  induction ts generalizing first with
  | nil =>
    simp only [stmts]
    exact .pure (.nil horder)
  | cons t ts ih =>
    obtain ⟨ht, hts⟩ := List.forall_mem_cons.mp hts
    simp only [stmts]
    exact (row_stmt ht strict).bind fun s hs => (ih horder.2.2 hts).bind fun ss hss =>
      .pure ((hs.mono horder.1 le_rfl).cons hss le_rfl)

/-- The statements that are the parts of a phrase. -/
theorem row_parts {p : Phrase} {span : Span} {children : List Tree} (strict : Bool)
    (h : Tree.Ranged source (.node p span children)) :
    Yields (stmts source strict children) fun ss =>
      Row span.start span.stop (ss.map .statement) :=
  row_stmts strict h.nested.order fun _ => h.child

/-! ### Expressions -/

theorem row_joined {left right : Expr} {mid mid' : Nat} (operator : Token) (span : Span)
    (text : List Char) (hl : Row first mid [.expression left])
    (hr : Row mid' last [.expression right]) (hle : mid ≤ mid') :
    Yields (joined left operator span text right) fun e => Row first last [.expression e] := by
  -- whatever the operator is, the whole is joined from its two operands
  have hwhole (e : Expr) (hspan : e.span = left.span.join right.span)
      (hparts : e.nodes = [.expression left, .expression right]) :
        Row first last [.expression e] := by
    have hright := hr.shrink.mono hr.span_of_singleton.1 (le_of_eq (congrArg Span.stop hspan).symm)
    have hstart : e.span.start = left.span.start := by rw [hspan]; rfl
    refine (Row.joined (n := .expression e) (m := .expression left) hstart hparts hl hright
      hle).mono le_rfl ?_
    exact (congrArg Span.stop hspan).trans_le hr.span_of_singleton.2.2
  unfold joined
  dsimp only
  split
  · exact .pure (hwhole _ rfl rfl)
  · exact .pure (hwhole _ rfl rfl)
  · exact .step fun op => .pure (hwhole _ rfl rfl)

theorem row_chain (strict : Bool) : ∀ {ts : List Tree} {mid : Nat} {left : Expr},
    Row first mid [.expression left] → InOrder mid last ts → (∀ t ∈ ts, t.Ranged source) →
      Yields (chain source strict left ts) fun e => Row first last [.expression e] := by
  intro ts mid left hleft horder hts
  unfold chain
  split
  · exact .pure (hleft.mono le_rfl horder)
  · next operator span text operand rest =>
    simp only [List.forall_mem_cons, InOrder] at hts horder
    obtain ⟨hop, hop', hoperand, -, hrest⟩ := horder
    refine (row_expr hts.2.1 strict).bind fun right hright => ?_
    refine (row_joined operator span text hleft hright (hop.trans (hop'.trans hoperand))).bind
      fun both hboth => ?_
    exact row_chain strict hboth hrest hts.2.2
  · exact .throw _
termination_by ts => ts.length
decreasing_by rw [‹ts = _›]; exact Nat.lt_add_of_pos_right Nat.two_pos

theorem row_withSuffixes (strict : Bool) : ∀ {ts : List Tree} {mid : Nat} {base : Expr},
    Row first mid [.expression base] → InOrder mid last ts → (∀ t ∈ ts, t.Ranged source) →
      Yields (withSuffixes source strict base ts) fun e => Row first last [.expression e] := by
  intro ts mid base hbase horder hts
  unfold withSuffixes
  split
  · exact .pure (hbase.mono le_rfl horder)
  · next span arguments rest =>
    obtain ⟨harguments, hts⟩ := List.forall_mem_cons.mp hts
    refine (row_exprs strict harguments.nested.order fun _ => harguments.child).bind
      fun es hes => ?_
    have hcall := Row.joined (n := .expression (.call (base.span.join span) base es))
        (m := .expression base) rfl
      rfl hbase hes horder.1
    exact row_withSuffixes strict hcall horder.2.2 hts
  · next span nameSpan name rest =>
    obtain ⟨-, hts⟩ := List.forall_mem_cons.mp hts
    have hmember := Row.joined (m := .expression base)
      (n := .expression (.member (.named (base.span.join span) base (String.ofList name))))
        rfl rfl hbase
      (.nil horder.2.1) horder.1
    exact row_withSuffixes strict hmember horder.2.2 hts
  · next span property rest =>
    obtain ⟨hsuffix, hts⟩ := List.forall_mem_cons.mp hts
    have hin := hsuffix.nested.order
    refine (row_expr (hsuffix.child List.mem_cons_self) strict).bind fun p hp => ?_
    have hmember := Row.joined (m := .expression base)
      (n := .expression (.member (.computed (base.span.join span) base p))) rfl rfl hbase
      (hp.mono hin.1 hin.2.2) horder.1
    exact row_withSuffixes strict hmember horder.2.2 hts
  · exact .throw _
termination_by ts => ts.length
decreasing_by all_goals simp [‹ts = _›]

theorem row_arrayElements (strict : Bool) :
    ∀ {ts : List Tree} {first : Nat}, InOrder first last ts →
    (∀ t ∈ ts, t.Ranged source) → Yields (arrayElements source strict ts) fun es =>
      Row first last ((es.filterMap id).map .expression) := by
  intro ts first horder hts
  unfold arrayElements
  split
  · exact .pure (.nil horder)
  · obtain ⟨-, hts⟩ := List.forall_mem_cons.mp hts
    exact (row_arrayElements strict horder.2.2 hts).bind fun es hes =>
      .pure (hes.mono (horder.1.trans horder.2.1) le_rfl)
  · obtain ⟨helement, hts⟩ := List.forall_mem_cons.mp hts
    have hin := helement.nested.order
    exact (row_expr (helement.child List.mem_cons_self) strict).bind fun e he =>
      (row_arrayElements strict horder.2.2 hts).bind fun es hes =>
        .pure ((he.mono (horder.1.trans hin.1) hin.2.2).cons hes le_rfl)
  · exact .throw _
termination_by ts => ts.length
decreasing_by all_goals simp [‹ts = _›]

theorem row_objectProperties (strict : Bool) :
    ∀ {ts : List Tree} {first : Nat}, InOrder first last ts →
    (∀ t ∈ ts, t.Ranged source) → Yields (objectProperties source strict ts) fun ps =>
      Row first last (ps.map .property) := by
  intro ts first horder hts
  unfold objectProperties
  split
  · exact .pure (.nil horder)
  · next span key value rest =>
    obtain ⟨hproperty, hts⟩ := List.forall_mem_cons.mp hts
    obtain ⟨hkey, hkey', hvalue, -, hstop⟩ := hproperty.nested.order
    refine .step fun key => (row_expr (hproperty.child (by simp)) strict).bind fun v hv => ?_
    refine (row_objectProperties strict horder.2.2 hts).bind fun ps hps => .pure ?_
    have hnode := Row.node (n := .property (.mk span key v))
        (hv.mono (hkey.trans (hkey'.trans hvalue)) hstop)
    exact (hnode.mono horder.1 le_rfl).cons hps le_rfl
  · exact .throw _
termination_by ts => ts.length
decreasing_by all_goals simp [‹ts = _›]

/-! ### Functions -/

theorem row_func (strict isExpression : Bool) {span : Span}
    (horder : InOrder span.start span.stop ts) (hts : ∀ t ∈ ts, t.Ranged source) :
    Yields (func source strict isExpression span ts) fun f =>
      Row span.start span.stop [.function f] := by
  have hbody {bodySpan : Span} {children : List Tree} (strict : Bool)
      (h : Tree.Ranged source (.node .functionBody bodySpan children)) :
      Yields (stmts source strict children) fun ss =>
        Row bodySpan.start bodySpan.stop [.body bodySpan ss] :=
    fun _ _ _ hrun => Row.node (n := .body bodySpan _) (row_parts strict h hrun)
  -- a function whose parts stand one after the other in its range
  have hfunc (f : Func) {first : Nat} (hspan : f.span = span) (hfirst : span.start ≤ first)
      (h : Row first span.stop (Node.function f).parts) :
        Row span.start span.stop [.function f] := by
    subst hspan
    exact Row.node (n := .function f) (h.mono hfirst le_rfl)
  unfold func
  split
  · simp only [List.forall_mem_cons, InOrder, span_node] at hts horder
    refine .step fun id => (hbody _ hts.2.1).bind fun body hrow => .pure ?_
    exact hfunc _ rfl (by omega) (hrow.mono le_rfl horder.2.2.2.2)
  · simp only [List.forall_mem_cons, InOrder, span_node] at hts horder
    refine .step fun id => (row_identifier horder.2.2.2.1 _).bind fun name hname => ?_
    refine (hbody _ hts.2.2.1).bind fun body hrow => .pure ?_
    exact hfunc _ rfl (by omega) (hname.cons (hrow.mono le_rfl horder.2.2.2.2.2.2) horder.2.2.2.2.1)
  · simp only [List.forall_mem_cons, InOrder, span_node] at hts horder
    refine .step fun id => (row_identifiers hts.2.1.nested.order).bind fun params hparams => ?_
    refine (hbody _ hts.2.2.1).bind fun body hrow => .pure ?_
    exact hfunc _ rfl (by omega)
      (hparams.append (hrow.mono le_rfl horder.2.2.2.2.2.2) horder.2.2.2.2.1)
  · simp only [List.forall_mem_cons, InOrder, span_node] at hts horder
    refine .step fun id => (row_identifier horder.2.2.2.1 _).bind fun name hname => ?_
    refine (row_identifiers hts.2.2.1.nested.order).bind fun params hparams => ?_
    refine (hbody _ hts.2.2.2.1).bind fun body hrow => .pure ?_
    exact hfunc _ rfl (by omega)
      (hname.cons (hparams.append (hrow.mono le_rfl horder.2.2.2.2.2.2.2.2)
      horder.2.2.2.2.2.2.1) horder.2.2.2.2.1)
  · exact .throw _

/-! ### Phrases -/

section

variable {p : Phrase} {span : Span} {children : List Tree}
  (hn : Tree.Nested (.node p span children)) (hparts : ∀ t ∈ children, t.Ranged source)

include hn hparts

/-- The expression of a phrase of which the parts are known. -/
theorem row_expr_node (position : Position) (strict : Bool) :
    Yields (expr source position strict (.node p span children)) fun e =>
      Row span.start span.stop [.expression e] := by
  have horder := hn.order
  -- an expression that is built from one part of the phrase
  have part {t : Tree} {position : Position} (ht : t ∈ children) :
      Yields (expr source position strict t) fun e =>
        Row span.start span.stop [.expression e] := fun _ _ _ h =>
    (row_expr (hparts t ht) strict h).mono (horder.of_mem ht).1 (horder.of_mem ht).2
  -- an expression that has the range of the phrase
  have node {e : Expr} (hspan : e.span = span) (h : Row span.start span.stop e.nodes) :
      Row span.start span.stop [.expression e] := by
    subst hspan
    exact Row.node (n := .expression e) h
  unfold expr
  refine .guarded ?_ span
  split
  · exact part (by simp)
  · exact (row_exprs strict horder hparts).bind fun es hes => .pure (node rfl hes)
  · exact part (by simp)
  · next left _ opSpan op right =>
    simp only [InOrder] at horder
    refine (row_expr (hparts left (by simp)) strict).bind fun place hplace => ?_
    split
    · exact .throw _
    · next target htarget =>
      refine .step fun op => (row_expr (hparts right (by simp)) strict).bind fun value hvalue =>
        .pure (node rfl ?_)
      rw [Expr.nodes, Target.toExpr_of_target? htarget]
      exact (hplace.mono (by omega) le_rfl).cons (hvalue.mono le_rfl (by omega)) (by omega)
  · exact part (by simp)
  · next test consequent alternate =>
    simp only [InOrder] at horder
    refine (row_expr (hparts test (by simp)) strict).bind fun t ht => ?_
    refine (row_expr (hparts consequent (by simp)) strict).bind fun c hc => ?_
    refine (row_expr (hparts alternate (by simp)) strict).bind fun a ha => .pure (node rfl ?_)
    exact (ht.mono (by omega) le_rfl).cons
      (hc.cons (ha.mono le_rfl (by omega)) (by omega)) (by omega)
  · exact part (by simp)
  · next opSpan op operand =>
    refine (part (t := operand) (by simp)).bind fun argument hargument => ?_
    split
    · split
      · exact .throw _
      · next target htarget =>
        refine .pure (node rfl ?_)
        rwa [Expr.nodes, Target.toExpr_of_target? htarget]
    · exact .step fun op => .pure (node rfl hargument)
  · exact part (by simp)
  · next operand _ opSpan op =>
    refine (part (t := operand) (by simp)).bind fun argument hargument => ?_
    split
    · exact .throw _
    · next target htarget =>
      refine .step fun op => .pure (node rfl ?_)
      rwa [Expr.nodes, Target.toExpr_of_target? htarget]
  · next head suffixes =>
    obtain ⟨hhead, hsuffixes⟩ := List.forall_mem_cons.mp hparts
    exact (row_expr hhead strict).bind fun base hbase =>
      row_withSuffixes strict (hbase.mono horder.1 le_rfl) horder.2.2 hsuffixes
  · next head suffixes =>
    obtain ⟨hhead, hsuffixes⟩ := List.forall_mem_cons.mp hparts
    exact (row_expr hhead strict).bind fun base hbase =>
      row_withSuffixes strict (hbase.mono horder.1 le_rfl) horder.2.2 hsuffixes
  · next keyword callee argumentSpan arguments =>
    simp only [InOrder, span_node] at horder
    have harguments := hparts (.node .arguments argumentSpan arguments) (by simp)
    refine (row_expr (hparts callee (by simp)) strict).bind fun f hf => ?_
    refine (row_exprs strict harguments.nested.order fun _ => harguments.child).bind fun es hes =>
      .pure (node rfl ?_)
    exact (hf.mono (by omega) le_rfl).cons (hes.mono le_rfl (by omega)) (by omega)
  · exact (part (by simp)).bind fun f hf => .pure (node rfl hf)
  · exact part (by simp)
  · exact part (by simp)
  · refine (row_arrayElements strict horder hparts).bind fun es hes => .pure (node rfl ?_)
    rwa [Expr.nodes, filterMap_dropTrailingHole]
  · exact (row_objectProperties strict horder hparts).bind fun ps hps => .pure (node rfl hps)
  · exact (row_func strict true horder hparts).map fun f hf =>
      Row.wrap (m := .function f) rfl rfl hf
  · obtain ⟨hfirst, hrest⟩ := List.forall_mem_cons.mp hparts
    refine .guarded ?_ span
    exact (row_expr hfirst strict).bind fun left hleft =>
      row_chain strict (hleft.mono horder.1 le_rfl) horder.2.2 hrest
  · exact .throw _

end

/-! ### Parts of statements -/

theorem row_declarators (strict : Bool) : ∀ {ts : List Tree} {first : Nat}, InOrder first last ts →
    (∀ t ∈ ts, t.Ranged source) → Yields (declarators source strict ts) fun ds =>
      Row first last (ds.map .declarator) := by
  intro ts first horder hts
  unfold declarators
  split
  · exact .pure (.nil horder)
  · next span nameSpan name rest =>
    obtain ⟨hd, hts⟩ := List.forall_mem_cons.mp hts
    obtain ⟨hname, hle, hstop⟩ := hd.nested.order
    refine (row_identifier hle name).bind fun x hx =>
      (row_declarators strict horder.2.2 hts).bind fun ds hds => ?_
    have hnode := Row.node (n := .declarator (.mk span x none)) (hx.mono hname hstop)
    exact .pure ((hnode.mono horder.1 le_rfl).cons hds le_rfl)
  · next span nameSpan name init rest =>
    obtain ⟨hd, hts⟩ := List.forall_mem_cons.mp hts
    obtain ⟨hname, hle, hinit, -, hstop⟩ := hd.nested.order
    refine (row_identifier hle name).bind fun x hx => ?_
    refine (row_expr (hd.child (by simp)) strict).bind fun e he => ?_
    refine (row_declarators strict horder.2.2 hts).bind fun ds hds => ?_
    have hnode := Row.node (n := .declarator (.mk span x (some e)))
      ((hx.mono hname le_rfl).cons (he.mono le_rfl hstop) hinit)
    exact .pure ((hnode.mono horder.1 le_rfl).cons hds le_rfl)
  · exact .throw _
termination_by ts => ts.length
decreasing_by all_goals simp [‹ts = _›]

/-- The declaration of a list of variables that stands between two offsets. -/
theorem row_declaration {listSpan span : Span} {children : List Tree} (strict : Bool)
    (hlist : Tree.Ranged source (.node .variableDeclarationList listSpan children))
    (hstart : span.start ≤ listSpan.start) (hstop : listSpan.stop ≤ span.stop) :
    Yields (declarators source strict children) fun ds =>
      Row span.start span.stop [.declaration span ds] :=
  fun _ _ _ h => Row.node (n := .declaration span _)
    ((row_declarators strict hlist.nested.order (fun _ => hlist.child) h).mono hstart hstop)

theorem row_block (strict : Bool) (ht : t.Ranged source) : Yields (block source strict t) fun b =>
    Row t.span.start t.span.stop [.block b] := by
  unfold block
  split
  · next span body =>
      exact (row_parts strict ht).bind fun ss hss =>
        .pure (Row.node (n := .block (.mk span ss)) hss)
  · exact .throw _

theorem row_finallyClause {span : Span} {keyword finalizer : Tree} (strict : Bool)
    (h : Tree.Ranged source (.node .finallyClause span [keyword, finalizer])) :
    Yields (block source strict finalizer) fun b => Row span.start span.stop [.block b] := by
  have hin := h.nested.order.of_mem (t := finalizer) (by simp)
  exact fun _ _ _ hrun => (row_block strict (h.child (by simp)) hrun).mono hin.1 hin.2

theorem row_catchClause (strict : Bool) (ht : t.Ranged source) :
    Yields (catchClause source strict t) fun h =>
    Row t.span.start t.span.stop [.handler h] := by
  unfold catchClause
  split
  · next span keyword nameSpan name body =>
    obtain ⟨hkeyword, hle, hname, hle', hbody, -, hstop⟩ := ht.nested.order
    refine (row_identifier hle' name).bind fun x hx => ?_
    refine (row_block strict (ht.child (t := body) (by simp))).bind fun b hb => .pure ?_
    exact Row.node (n := .handler (.mk span x b))
      ((hx.mono (hkeyword.trans (hle.trans hname)) le_rfl).cons (hb.mono le_rfl hstop) hbody)
  · exact .throw _

theorem row_forInTarget (strict : Bool) {p : Phrase} {span : Span} {children : List Tree}
    (ht : Tree.Ranged source (.node p span children)) :
    Yields (forInTarget source strict span children) fun l =>
      Row span.start span.stop [l.node] := by
  have horder := ht.nested.order
  unfold forInTarget
  split
  · next keyword nameSpan name =>
    obtain ⟨hkeyword, hle, hname, hle', hstop⟩ := horder
    exact (row_identifier hle' name).map fun x hx =>
      hx.mono (hkeyword.trans (hle.trans hname)) hstop
  · next place =>
    refine (row_expr (ht.child (by simp)) strict).bind fun e he => ?_
    split
    · next target htarget =>
      refine .pure ?_
      rw [ForInTarget.node, Target.toExpr_of_target? htarget]
      exact he.mono horder.1 horder.2.2
    · exact .throw _
  · exact .throw _

theorem row_switchClauses (strict : Bool) : ∀ {ts : List Tree} {hasDefault : Bool} {first : Nat},
    InOrder first last ts → (∀ t ∈ ts, t.Ranged source) →
      Yields (switchClauses source strict hasDefault ts) fun cs =>
        Row first last (cs.map .clause) := by
  intro ts hasDefault first horder hts
  unfold switchClauses
  split
  · exact .pure (.nil horder)
  · next span keyword test body rest =>
    obtain ⟨hclause, hts⟩ := List.forall_mem_cons.mp hts
    obtain ⟨hkeyword, hle, htest, -, hbody⟩ := hclause.nested.order
    refine (row_expr (hclause.child (t := test) (by simp)) strict).bind fun e he => ?_
    refine (row_stmts strict hbody fun t ht => hclause.child (by simp [ht])).bind fun ss hss => ?_
    refine (row_switchClauses strict horder.2.2 hts).bind fun cs hcs => .pure ?_
    have hnode := Row.node (n := .clause (.mk span (some e) ss))
      ((he.mono (hkeyword.trans (hle.trans htest)) le_rfl).cons hss le_rfl)
    exact (hnode.mono horder.1 le_rfl).cons hcs le_rfl
  · next span keyword body rest =>
    obtain ⟨hclause, hts⟩ := List.forall_mem_cons.mp hts
    obtain ⟨hkeyword, hle, hbody⟩ := hclause.nested.order
    split
    · exact .throw _
    · refine (row_stmts strict hbody fun t ht => hclause.child (by simp [ht])).bind fun ss hss => ?_
      refine (row_switchClauses strict horder.2.2 hts).bind fun cs hcs => .pure ?_
      have hnode := Row.node (n := .clause (.mk span none ss))
          (hss.mono (hkeyword.trans hle) le_rfl)
      exact (hnode.mono horder.1 le_rfl).cons hcs le_rfl
  · exact .throw _
termination_by ts => ts.length
decreasing_by all_goals simp [‹ts = _›]

/-! ### Loops -/

/-- Where a part of a `for` loop stands among the others. -/
def forRank : Tree → Nat
  | .node .forInit .. => 0
  | .node .forTest .. => 1
  | .node .forUpdate .. => 2
  | _ => 3

theorem forRank_of_isStatement (ht : t.isStatement = true) : forRank t = 3 := by
  cases t with
  | node p span children => cases p <;> first | rfl | cases ht
  | leaf | finish => rfl

/-- The parts of a `for` loop come in their order. -/
theorem ranked_of_shape (h : (Phrase.pattern .forStatement).Shape ts) :
    ∃ keyword parts, ts = keyword :: parts ∧
    parts.Pairwise fun t u => forRank t < forRank u := by
  simp only [Phrase.pattern, Pattern.sequence, Pattern.shape_kw_seq, Pattern.shape_mark_seq] at h
  obtain ⟨kwSpan, text, _, rfl, is, _, rfl, hinit, h⟩ := h
  rw [Pattern.shape_mark_seq] at h
  obtain ⟨ts, _, rfl, htest, h⟩ := h
  rw [Pattern.shape_mark_seq] at h
  obtain ⟨us, _, rfl, hupdate, h⟩ := h
  rw [Pattern.shape_mark_seq] at h
  obtain ⟨body, rfl, hbody⟩ := Pattern.shape_statement h
  refine ⟨_, _, rfl, ?_⟩
  have hlast := forRank_of_isStatement hbody
  have hfirst (span children) : forRank (.node .forInit span children) = 0 := rfl
  have hsecond (span children) : forRank (.node .forTest span children) = 1 := rfl
  have hthird (span children) : forRank (.node .forUpdate span children) = 2 := rfl
  rcases hinit with rfl | ⟨_, _, rfl⟩ <;> rcases htest with rfl | ⟨_, _, rfl⟩ <;>
    rcases hupdate with rfl | ⟨_, _, rfl⟩ <;> simp [hlast, hfirst, hsecond, hthird]

/-- A `for` loop of which some parts of the head are known, those before a given rank. -/
theorem row_forLoop (strict : Bool) {span : Span} :
    ∀ {ts : List Tree} {mid k : Nat} {init : ForInit}
    {test update : Option Expr},
    Row span.start mid
      (init.nodes ++ (test.toList.map .expression ++ update.toList.map .expression)) →
      InOrder mid span.stop ts → (∀ t ∈ ts, t.Ranged source) → (∀ t ∈ ts, k ≤ forRank t) →
        (ts.Pairwise fun t u => forRank t < forRank u) → (k ≤ 0 → test = none) →
          (k ≤ 1 → update = none) →
          Yields (forLoop source strict span init test update ts) fun s =>
            Row span.start span.stop [.statement s] := by
  intro ts mid k init test update hrow horder hts hrank hsorted htest hupdate
  unfold forLoop
  split
  · next initSpan keyword listSpan ds rest =>
    obtain ⟨hinit, hts⟩ := List.forall_mem_cons.mp hts
    obtain ⟨hlater, hsorted⟩ := List.pairwise_cons.mp hsorted
    obtain rfl := htest (hrank _ List.mem_cons_self)
    obtain rfl := hupdate ((hrank _ List.mem_cons_self).trans (Nat.zero_le 1))
    have hin :=
      hinit.nested.order.of_mem (t := .node .variableDeclarationList listSpan ds) (by simp)
    refine (row_declaration strict (hinit.child (by simp)) hin.1 hin.2).bind fun ds hds => ?_
    exact row_forLoop strict (k := 1) (hds.mono ((hrow.order.le).trans horder.1) le_rfl)
      horder.2.2 hts hlater hsorted (by simp) fun _ => rfl
  · next initSpan e rest =>
    obtain ⟨hinit, hts⟩ := List.forall_mem_cons.mp hts
    obtain ⟨hlater, hsorted⟩ := List.pairwise_cons.mp hsorted
    obtain rfl := htest (hrank _ List.mem_cons_self)
    obtain rfl := hupdate ((hrank _ List.mem_cons_self).trans (Nat.zero_le 1))
    have hin := hinit.nested.order.of_mem (t := e) (by simp)
    refine (row_expr (hinit.child (by simp)) strict).bind fun e he => ?_
    exact row_forLoop strict
      (k := 1) (he.mono ((hrow.order.le).trans (horder.1.trans hin.1)) hin.2) horder.2.2
      hts hlater hsorted (by simp) fun _ => rfl
  · next testSpan e rest =>
    obtain ⟨htest, hts⟩ := List.forall_mem_cons.mp hts
    obtain ⟨hlater, hsorted⟩ := List.pairwise_cons.mp hsorted
    obtain rfl := hupdate (hrank _ List.mem_cons_self)
    have hin := htest.nested.order.of_mem (t := e) (by simp)
    refine (row_expr (htest.child (by simp)) strict).bind fun e he => ?_
    refine row_forLoop strict (k := 2) ?_ horder.2.2 hts hlater hsorted (by simp) (by simp)
    simpa using hrow.append (he.mono le_rfl hin.2) (horder.1.trans hin.1)
  · next updateSpan e rest =>
    obtain ⟨hupdate, hts⟩ := List.forall_mem_cons.mp hts
    obtain ⟨hlater, hsorted⟩ := List.pairwise_cons.mp hsorted
    have hin := hupdate.nested.order.of_mem (t := e) (by simp)
    refine (row_expr (hupdate.child (by simp)) strict).bind fun e he => ?_
    refine row_forLoop strict (k := 3) ?_ horder.2.2 hts hlater hsorted (by simp) (by simp)
    simpa using hrow.append (he.mono le_rfl hin.2) (horder.1.trans hin.1)
  · next body _ _ _ _ =>
    refine (row_stmt (hts body (by simp)) strict).bind fun s hs => .pure ?_
    have hparts := (hrow.append hs horder.1).mono le_rfl horder.2.2
    rw [List.append_assoc, List.append_assoc] at hparts
    exact Row.node (n := .statement (.for span init test update s)) hparts
  · exact .throw _
termination_by ts => ts.length
decreasing_by all_goals simp [‹ts = _›]

/-! ### Statements -/

/-- The statement of a phrase of which the parts are known. -/
theorem row_stmt_node {p : Phrase} {span : Span} {children : List Tree}
    (hn : Tree.Nested (.node p span children)) (hshape : p.pattern.Shape children)
    (hparts : ∀ t ∈ children, t.Ranged source) (strict : Bool) :
    Yields (stmt source strict (.node p span children)) fun s =>
      Row span.start span.stop [.statement s] := by
  have horder := hn.order
  have hle := horder.le
  have block (blockSpan : Span) {body : List Tree} (ht : .node .block blockSpan body ∈ children) :
      Yields (stmts source strict body) fun ss =>
        Row blockSpan.start blockSpan.stop [.block (.mk blockSpan ss)] := fun _ _ _ h =>
    Row.node (n := .block (.mk blockSpan _)) (row_parts strict (hparts _ ht) h)
  -- a statement that has the range of the phrase
  have node {s : Stmt} (hspan : s.span = span) (h : Row span.start span.stop s.nodes) :
      Row span.start span.stop [.statement s] := by
    subst hspan
    exact Row.node (n := .statement s) h
  -- a statement that has one part
  have one {e : Tree} {s : Stmt} {m : Node} (ht : e ∈ children) (hspan : s.span = span)
      (hs : s.nodes = [m]) (h : Row e.span.start e.span.stop [m]) :
        Row span.start span.stop [.statement s] :=
    node hspan (hs ▸ h.mono (horder.of_mem ht).1 (horder.of_mem ht).2)
  unfold stmt
  refine .guarded ?_ span
  split
  · exact (row_func strict false horder hparts).map fun f hf =>
      Row.wrap (m := .function f) rfl rfl hf
  · exact (row_stmts strict horder hparts).bind fun ss hss =>
      .pure (Row.wrap (m := .block (.mk span ss))
        rfl rfl (Row.node (n := .block (.mk span ss)) hss))
  · next listSpan ds =>
    have hin := horder.of_mem (t := .node .variableDeclarationList listSpan ds) (by simp)
    exact (row_declaration strict (hparts _ (by simp)) hin.1 hin.2).bind fun ds hds =>
      .pure (node rfl hds)
  · exact .pure (node rfl (.nil hle))
  · exact .pure (node rfl (.nil hle))
  · next e =>
      exact (row_expr (hparts e (by simp)) strict).bind fun e he => .pure (one (by simp) rfl rfl he)
  · next test consequent =>
    simp only [InOrder] at horder
    refine (row_expr (hparts test (by simp)) strict).bind fun t ht => ?_
    refine (row_stmt (hparts consequent (by simp)) strict).bind fun c hc => .pure (node rfl ?_)
    exact (ht.mono (by omega) le_rfl).cons (hc.mono le_rfl (by omega)) (by omega)
  · next test consequent _ alternate =>
    simp only [InOrder] at horder
    refine (row_expr (hparts test (by simp)) strict).bind fun t ht => ?_
    refine (row_stmt (hparts consequent (by simp)) strict).bind fun c hc => ?_
    refine (row_stmt (hparts alternate (by simp)) strict).bind fun a ha => .pure (node rfl ?_)
    exact (ht.mono (by omega) le_rfl).cons
      (hc.cons (ha.mono le_rfl (by omega)) (by omega)) (by omega)
  · next body _ test =>
    simp only [InOrder] at horder
    refine (row_stmt (hparts body (by simp)) strict).bind fun b hb => ?_
    refine (row_expr (hparts test (by simp)) strict).bind fun t ht => .pure (node rfl ?_)
    exact (hb.mono (by omega) le_rfl).cons (ht.mono le_rfl (by omega)) (by omega)
  · next test body =>
    simp only [InOrder] at horder
    refine (row_expr (hparts test (by simp)) strict).bind fun t ht => ?_
    refine (row_stmt (hparts body (by simp)) strict).bind fun b hb => .pure (node rfl ?_)
    exact (ht.mono (by omega) le_rfl).cons (hb.mono le_rfl (by omega)) (by omega)
  · obtain ⟨_, _, heq, hsorted⟩ := ranked_of_shape hshape
    cases heq
    exact row_forLoop strict (k := 0) (.nil (horder.1.trans horder.2.1)) horder.2.2
      (List.forall_mem_cons.mp hparts).2 (fun _ _ => Nat.zero_le _) hsorted
        (fun _ => rfl) fun _ => rfl
  · next phrase bindingSpan binding _ right body =>
    simp only [InOrder, span_node] at horder
    refine (row_forInTarget strict (hparts (.node phrase bindingSpan binding) (by simp))).bind
      fun l hl => ?_
    refine (row_expr (hparts right (by simp)) strict).bind fun r hr => ?_
    refine (row_stmt (hparts body (by simp)) strict).bind fun b hb => .pure (node rfl ?_)
    exact (hl.mono (by omega) le_rfl).cons
      (hr.cons (hb.mono le_rfl (by omega)) (by omega)) (by omega)
  · exact .pure (node rfl (.nil hle))
  · exact .pure (node rfl (.nil hle))
  · exact .pure (node rfl (.nil hle))
  · exact .pure (node rfl (.nil hle))
  · exact .pure (node rfl (.nil hle))
  · next e =>
      exact (row_expr (hparts e (by simp)) strict).bind fun e he => .pure (one (by simp) rfl rfl he)
  · next object body =>
    simp only [InOrder] at horder
    refine (row_expr (hparts object (by simp)) strict).bind fun o ho => ?_
    refine (row_stmt (hparts body (by simp)) strict).bind fun b hb => .step fun id =>
      .pure (node rfl ?_)
    exact (ho.mono (by omega) le_rfl).cons (hb.mono le_rfl (by omega)) (by omega)
  · next discriminant clauses =>
    obtain ⟨hkeyword, hle, hdiscriminant, -, hclauses⟩ := horder
    refine (row_expr (hparts discriminant (by simp)) strict).bind fun d hd => ?_
    refine (row_switchClauses strict hclauses fun t ht => hparts t (by simp [ht])).bind
      fun cs hcs =>
      .pure (node rfl ?_)
    exact (hd.mono (hkeyword.trans (hle.trans hdiscriminant)) le_rfl).cons hcs le_rfl
  · next e =>
      exact (row_expr (hparts e (by simp)) strict).bind fun e he => .pure (one (by simp) rfl rfl he)
  · next blockSpan body finallySpan keyword finalizer =>
    simp only [InOrder, span_node] at horder
    refine (block blockSpan (by simp)).bind fun ss hss => ?_
    have hfinally := hparts (.node .finallyClause finallySpan [keyword, finalizer]) (by simp)
    refine (row_finallyClause strict hfinally).bind fun f hf => .pure (node rfl ?_)
    exact (hss.mono (by omega) le_rfl).cons (hf.mono le_rfl (by omega)) (by omega)
  · next blockSpan body handler _ =>
    simp only [InOrder, span_node] at horder
    refine (block blockSpan (by simp)).bind fun ss hss => ?_
    refine (row_catchClause strict (hparts handler (by simp))).bind fun h hh => .pure (node rfl ?_)
    exact (hss.mono (by omega) le_rfl).cons (hh.mono le_rfl (by omega)) (by omega)
  · next blockSpan body handler finallySpan keyword finalizer =>
    simp only [InOrder, span_node] at horder
    refine (block blockSpan (by simp)).bind fun ss hss => ?_
    refine (row_catchClause strict (hparts handler (by simp))).bind fun h hh => ?_
    have hfinally := hparts (.node .finallyClause finallySpan [keyword, finalizer]) (by simp)
    refine (row_finallyClause strict hfinally).bind fun f hf => .pure (node rfl ?_)
    exact (hss.mono (by omega) le_rfl).cons
      (hh.cons (hf.mono le_rfl (by omega)) (by omega)) (by omega)
  · next labelSpan label body =>
    exact (row_stmt (hparts body (by simp)) strict).bind fun b hb =>
      .pure (one (by simp) rfl rfl hb)
  · exact .throw _

theorem row_leaf {token : Token} {span : Span} (hle : span.start ≤ span.stop) (text : List Char) :
    Yields (leaf token span text) fun e => Row span.start span.stop [.expression e] := by
  have hleaf (v : Literal) : Row span.start span.stop [.expression (.literal span v)] :=
    Row.node (n := .expression (.literal span v)) (.nil hle)
  unfold leaf
  split
  · exact .pure (Row.node (n := .expression (.this span)) (.nil hle))
  · exact (row_identifier hle text).map fun x hx => Row.wrap (m := .identifier x) rfl rfl hx
  · exact .pure (hleaf _)
  · exact .pure (hleaf _)
  · exact .step fun n => .pure (hleaf _)
  · exact .pure (hleaf _)
  · exact .pure (hleaf _)
  · exact .throw _

end Build

/-- What is built from a parsed tree stands between its two ends. -/
theorem Tree.Parsed.ranged {source : List Char} {t : Tree} (h : t.Parsed source) (hn : t.Nested) :
    t.Ranged source := by
  induction hn with
  | leaf token span text =>
    have hle : span.start ≤ span.stop := by
      obtain ⟨_, before, _, -, heq⟩ := h.covers
      cases heq
      exact Nat.le_add_right _ _
    refine ⟨h, .leaf token span text, fun u hu position strict => ?_, fun u hu strict =>
      ?_⟩ <;> cases hu
    · unfold Build.expr
      exact (Build.row_leaf hle text).guarded span
    · unfold Build.stmt
      exact .throw _
  | finish offset =>
    refine ⟨h, .finish offset, fun u hu position strict => ?_, fun u hu strict => ?_⟩ <;> cases hu
    · unfold Build.expr
      exact .throw _
    · unfold Build.stmt
      exact .throw _
  | node order parts ih =>
    cases h with
    | node covers shape parsed =>
      have hparts (t) (ht : t ∈ _) : Tree.Ranged source t := ih t ht (parsed t ht)
      refine ⟨.node covers shape parsed, .node order parts, fun u hu => ?_, fun u hu => ?_⟩
      · cases hu with
        | self => exact Build.row_expr_node (.node order parts) hparts
        | child mem hu => exact (hparts _ mem).expr u hu
      · cases hu with
        | self => exact Build.row_stmt_node (.node order parts) shape hparts
        | child mem hu => exact (hparts _ mem).stmt u hu

/-! ### Scripts -/

/-- The whole script is nested, and ends within its source. -/
theorem Program.nested_of_parse {source : String} {p : Program} (h : Program.parse source = .ok p) :
    (Node.program p).Nested ∧ p.span.stop ≤ byteSize source.toList := by
  obtain ⟨span, children, next, furthest, elements, counters, hscript, hsub, -, hspan, hrun⟩ :=
    Program.built_of_parse h
  subst hspan
  obtain ⟨_, _, htrees, hparsed⟩ := Parse.parsed_of_script hscript
  cases htrees
  have hnested := Parse.nested_of_script hscript
  have hchildren (t) (ht : t ∈ elements) : Tree.Ranged source.toList t :=
    (hparsed.ranged hnested).child (hsub.subset ht)
  have hrow := Build.row_stmts p.strict (hnested.order.sublist hsub) hchildren hrun
  refine ⟨(Row.node (n := .program p) hrow).nested _ List.mem_cons_self, ?_⟩
  obtain ⟨_, before, after, hsource, hcovers⟩ := hparsed.covers
  rw [hsource, show p.span = _ from hcovers, byteSize_append, byteSize_append]
  exact Nat.le_add_right _ _

/-- In a script that was parsed every range lies within the source, the range of each part within
that of its node, and different parts of one node stand apart from each other, in the order of the
source. -/
theorem Program.ranges_of_parse {source : String} {p : Program}
    (h : Program.parse source = .ok p) {n : Node} (hn : (Node.program p).Contains n) :
    (n.span.start ≤ n.span.stop ∧ n.span.stop ≤ byteSize source.toList) ∧
    (∀ m ∈ n.parts, n.span.start ≤ m.span.start ∧ m.span.stop ≤ n.span.stop) ∧
    n.parts.Pairwise fun m k => m.span.stop ≤ k.span.start := by
  obtain ⟨hnested, hstop⟩ := Program.nested_of_parse h
  have horder := (hnested.of_contains hn).order
  refine ⟨⟨horder.le, (hnested.span_of_contains hn).2.trans hstop⟩, fun m hm => ?_, ?_⟩
  · have hin := horder.of_mem (List.mem_map_of_mem hm)
    exact ⟨hin.1, hin.2.2⟩
  · exact List.pairwise_map.mp horder.pairwise

/-- The range and the expression of a script that is a single expression. -/
def Program.onlyExpression? (p : Program) : Option (Span × Expr) :=
  match p.body with
  | [.expression span e] => some (span, e)
  | _ => none

theorem Program.body_of_onlyExpression? {p : Program} {span : Span} {e : Expr}
    (h : p.onlyExpression? = some (span, e)) : p.body = [.expression span e] := by
  unfold onlyExpression? at h
  split at h
  · next hbody =>
    cases h
    exact hbody
  · cases h

/-- Operands that stand in parentheses of their own, with a comment between them: the sum begins and
ends inside of the outer parentheses, and so does the property reference begin. -/
theorem Program.ranges_of_parse_parentheses :
    ∃ p span e, Program.parse "((a) /* b */ + c).d" = .ok p ∧
    p.body = [.expression span e] ∧ span = ⟨0, 19⟩ ∧ e.span = ⟨2, 19⟩ ∧
    (e.span.start ≤ e.span.stop ∧ e.span.stop ≤ byteSize "((a) /* b */ + c).d".toList) ∧
    (∀ m ∈ e.nodes, e.span.start ≤ m.span.start ∧ m.span.stop ≤ e.span.stop) ∧
    e.nodes.Pairwise fun m k => m.span.stop ≤ k.span.start := by
  obtain ⟨p, hp, h⟩ := Program.exists_parse "((a) /* b */ + c).d"
    (fun p => p.onlyExpression?.any fun (span, e) => span == ⟨0, 19⟩ && e.span == ⟨2, 19⟩)
      (by decide +kernel)
  obtain ⟨⟨span, e⟩, honly, hspans⟩ := (Option.any_eq_true _ _).mp h
  rw [Bool.and_eq_true, beq_iff_eq, beq_iff_eq] at hspans
  have hbody := Program.body_of_onlyExpression? honly
  have hcontains : (Node.program p).Contains (.expression e) :=
    .part (m := .statement (.expression span e)) (by simp [parts, hbody])
      (.part (by simp [parts, Stmt.nodes]) (.self _))
  exact ⟨p, span, e, hp, hbody, hspans.1, hspans.2, Program.ranges_of_parse hp hcontains⟩

end ScriptEngine
