import ScriptEngine.Proofs.Grammar.Spans

/-!
# Nodes of a script

The nodes of a script with their ranges and their parts, and what it means that the ranges are
nested: the parts of every node stand one after the other in its range.

## Main definitions

* `Node` : the nodes of a script.
* `Node.Contains` : a node is part of another one, at any depth.
* `Node.Nested` : the parts of each node stand one after the other in its range.
* `Node.Row` : nested nodes one after the other between two offsets.

## Main statements

* `Node.Nested.span_of_contains` : nested nodes contain nodes in their range only.
* `Node.Row.node`, `Node.Row.joined` : a row of nodes as the parts of one.
-/

namespace ScriptEngine

/-! ### Nodes -/

/-- The nodes of a script. -/
inductive Node where
  | program (p : Program)
  | function (f : Func)
  /-- The body of a function. -/
  | body (span : Span) (body : List Stmt)
  | statement (s : Stmt)
  | block (b : Block)
  | handler (h : Handler)
  | clause (c : SwitchClause)
  /-- A `var` declaration, by itself or in the head of a `for` loop. -/
  | declaration (span : Span) (declarators : List Declarator)
  | declarator (d : Declarator)
  | expression (e : Expr)
  | property (p : Property)
  | identifier (x : Identifier)

/-- The range of a block. -/
def Block.span : Block → Span
  | .mk span _ => span

/-- The range of a statement. -/
def Stmt.span : Stmt → Span
  | .expression span _ => span
  | .block b => b.span
  | .empty span => span
  | .debugger span => span
  | .ret span _ => span
  | .brk span _ => span
  | .cont span _ => span
  | .labeled span .. => span
  | .conditional span .. => span
  | .switch span .. => span
  | .throw span _ => span
  | .tryCatch span .. => span
  | .while span .. => span
  | .doWhile span .. => span
  | .for span .. => span
  | .forIn span .. => span
  | .with span .. => span
  | .declaration span _ => span
  | .function f => f.span

/-- The parts of an expression. -/
def Expr.nodes : Expr → List Node
  | .literal .. | .this _ => []
  | .identifier x => [.identifier x]
  | .array _ elements => (elements.filterMap id).map .expression
  | .object _ properties => properties.map .property
  | .function f => [.function f]
  | .unary _ _ argument => [.expression argument]
  | .update _ _ target _ => [.expression target.toExpr]
  | .binary _ _ left right => [.expression left, .expression right]
  | .logical _ _ left right => [.expression left, .expression right]
  | .assign _ _ target value => [.expression target.toExpr, .expression value]
  | .conditional _ test consequent alternate =>
    [.expression test, .expression consequent, .expression alternate]
  | .call _ callee arguments => .expression callee :: arguments.map .expression
  | .construct _ callee arguments => .expression callee :: arguments.map .expression
  | .sequence _ expressions => expressions.map .expression
  | .member (.named _ base _) => [.expression base]
  | .member (.computed _ base key) => [.expression base, .expression key]

theorem Target.toExpr_of_target? {e : Expr} {t : Target} (h : e.target? = some t) :
    t.toExpr = e := by
  cases e <;> cases h <;> rfl

/-- The part that comes first in the head of a `for` loop. -/
def ForInit.nodes : ForInit → List Node
  | .nothing => []
  | .declaration span ds => [.declaration span ds]
  | .expression e => [.expression e]

/-- What the keys of a `for`-`in` loop are assigned to, as a part of it. -/
def ForInTarget.node : ForInTarget → Node
  | .declaration x => .identifier x
  | .target t => .expression t.toExpr

/-- The parts of a statement, in the order of the source. -/
def Stmt.nodes : Stmt → List Node
  | .empty _ | .debugger _ | .brk .. | .cont .. => []
  | .expression _ e => [.expression e]
  | .block b => [.block b]
  | .ret _ argument => argument.toList.map .expression
  | .labeled _ _ body => [.statement body]
  | .conditional _ test consequent alternate =>
    .expression test :: .statement consequent :: alternate.toList.map .statement
  | .switch _ discriminant clauses => .expression discriminant :: clauses.map .clause
  | .throw _ argument => [.expression argument]
  | .tryCatch _ b handler finalizer =>
    .block b :: (handler.toList.map .handler ++ finalizer.toList.map .block)
  | .while _ test body => [.expression test, .statement body]
  | .doWhile _ test body => [.statement body, .expression test]
  | .for _ init test update body =>
    init.nodes ++
      (test.toList.map .expression ++ (update.toList.map .expression ++ [.statement body]))
  | .forIn _ left right body => [left.node, .expression right, .statement body]
  | .with _ _ object body => [.expression object, .statement body]
  | .declaration span ds => [.declaration span ds]
  | .function f => [.function f]

namespace Node

/-- The range of a node. -/
def span : Node → Span
  | .program p => p.span
  | .function f => f.span
  | .body span _ => span
  | .statement s => s.span
  | .block b => b.span
  | .handler (.mk span ..) => span
  | .clause (.mk span ..) => span
  | .declaration span _ => span
  | .declarator (.mk span ..) => span
  | .expression e => e.span
  | .property (.mk span ..) => span
  | .identifier x => x.span

/-- The parts of a node, in the order of the source. -/
def parts : Node → List Node
  | .program p => p.body.map .statement
  | .function f =>
    f.identifier?.toList.map .identifier ++ (f.params.map .identifier ++ [.body f.bodySpan f.body])
  | .body _ ss => ss.map .statement
  | .statement s => s.nodes
  | .block b => b.body.map .statement
  | .handler (.mk _ param b) => [.identifier param, .block b]
  | .clause (.mk _ test ss) => test.toList.map .expression ++ ss.map .statement
  | .declaration _ ds => ds.map .declarator
  | .declarator (.mk _ x init) => .identifier x :: init.toList.map .expression
  | .expression e => e.nodes
  | .property (.mk _ _ value) => [.expression value]
  | .identifier _ => []

/-- A node is part of another one, at any depth. -/
inductive Contains : Node → Node → Prop
  | self (n : Node) : Contains n n
  | part {n m k : Node} (mem : m ∈ n.parts) (h : Contains m k) : Contains n k

theorem Contains.of_mem {n m : Node} (h : m ∈ n.parts) : n.Contains m :=
  .part h (.self m)

theorem Contains.trans {n m k : Node} (h : n.Contains m) (h' : m.Contains k) : n.Contains k := by
  induction h with
  | self => exact h'
  | part mem _ ih => exact .part mem (ih h')

end Node

/-! ### Nested nodes -/

namespace Node

-- The equations of these functions are made here, once for all the lemmas that use them.
attribute [local grind =] parts Expr.nodes Stmt.nodes

/-- The parts of each node in a node stand one after the other in its range. -/
inductive Nested : Node → Prop
  | intro {n : Node} (order : Span.InOrder n.span.start n.span.stop (n.parts.map span))
      (parts : ∀ m ∈ n.parts, Nested m) : Nested n

theorem Nested.order {n : Node} (h : n.Nested) :
    Span.InOrder n.span.start n.span.stop (n.parts.map span) := by
  cases h with
  | intro order _ => exact order

theorem Nested.of_contains {n m : Node} (h : n.Nested) (hm : n.Contains m) : m.Nested := by
  induction hm with
  | self => exact h
  | part mem _ ih =>
    cases h with
    | intro _ parts => exact ih (parts _ mem)

/-- Nested nodes contain nodes in their range only. -/
theorem Nested.span_of_contains {n m : Node} (h : n.Nested) (hm : n.Contains m) :
    n.span.start ≤ m.span.start ∧ m.span.stop ≤ n.span.stop := by
  induction hm with
  | self => exact ⟨le_rfl, le_rfl⟩
  | part mem _ ih =>
    have hin := h.order.of_mem (List.mem_map_of_mem mem)
    cases h with
    | intro _ parts => exact ⟨hin.1.trans (ih (parts _ mem)).1, (ih (parts _ mem)).2.trans hin.2.2⟩

/-- Nested nodes stand one after the other between two offsets. -/
structure Row (first last : Nat) (ns : List Node) : Prop where
  order : Span.InOrder first last (ns.map span)
  nested : ∀ n ∈ ns, n.Nested

namespace Row

variable {a b c d : Nat} {n m : Node} {ns ns' : List Node}

theorem nil (h : a ≤ b) : Row a b [] :=
  ⟨h, List.forall_mem_nil _⟩

theorem mono (h : Row b c ns) (hab : a ≤ b) (hcd : c ≤ d) : Row a d ns :=
  ⟨h.order.mono hab hcd, h.nested⟩

theorem append (h : Row a b ns) (h' : Row c d ns') (hbc : b ≤ c) : Row a d (ns ++ ns') where
  order := by
    rw [List.map_append]
    exact h.order.append (h'.order.mono hbc le_rfl)
  nested := List.forall_mem_append.mpr ⟨h.nested, h'.nested⟩

theorem cons (h : Row a b [n]) (h' : Row c d ns) (hbc : b ≤ c) : Row a d (n :: ns) :=
  h.append h' hbc

/-- A node whose parts stand in its range. -/
theorem node (h : Row n.span.start n.span.stop n.parts) : Row n.span.start n.span.stop [n] :=
  ⟨⟨le_rfl, h.order.le, le_rfl⟩, List.forall_mem_singleton.mpr ⟨h.order, h.nested⟩⟩

/-- One node has the range of its only part. -/
theorem wrap (hspan : n.span = m.span) (hparts : n.parts = [m]) (h : Row a b [m]) :
    Row a b [n] := by
  have hm := h.order.of_mem (s := m.span) (by simp)
  have hn : Row n.span.start n.span.stop [n] := node <| by
    rw [hparts, hspan]
    exact ⟨⟨le_rfl, hm.2.1, le_rfl⟩, h.nested⟩
  exact hn.mono (hspan ▸ hm.1) (hspan ▸ hm.2.2)

theorem span_of_singleton (h : Row a b [n]) :
    a ≤ n.span.start ∧ n.span.start ≤ n.span.stop ∧ n.span.stop ≤ b :=
  h.order.of_mem (s := n.span) (by simp)

/-- A node does not reach beyond its range. -/
theorem shrink (h : Row a b [n]) : Row n.span.start n.span.stop [n] :=
  ⟨⟨le_rfl, h.span_of_singleton.2.1, le_rfl⟩, h.nested⟩

/-- A node that begins with its first part and ends with its last ones. -/
theorem joined (hstart : n.span.start = m.span.start) (hparts : n.parts = m :: ns) (h : Row a b [m])
    (h' : Row c n.span.stop ns) (hbc : b ≤ c) : Row a n.span.stop [n] := by
  have hm := h.span_of_singleton
  have hn : Row n.span.start n.span.stop [n] := node <| by
    rw [hparts, hstart]
    exact h.shrink.cons h' (hm.2.2.trans hbc)
  exact hn.mono (hstart ▸ hm.1) le_rfl

end Row

end Node

end ScriptEngine
