import ScriptEngine.Script.Build
import Mathlib.Data.List.Perm.Basic
import Mathlib.Data.List.Range

/-!
# Outlines of scripts

The outline of a piece of syntax is what is numbered in it: the identifier occurrences and `with`
statements, and the functions, each with the outline of what is inside it.  Outlines are listed in
the order in which a script is built from its parse tree.

## Main definitions

* `Mark` : something numbered.
* `Expr.marks`, `Stmt.marks`, `Program.marks` : outlines.
* `Mark.nodes`, `Mark.functions` : the numbers in an outline.
* `Mark.Ordered` : a function has a smaller number than the functions inside it, and a declaration
  is no expression.
-/

namespace ScriptEngine

/-- What is numbered in a script: a node, or a function with what is inside it.  A declaration is
noted in front of its function, with whether this would be an expression. -/
inductive Mark where
  | node (id : NodeId)
  | declaration (isExpression : Bool)
  | function (id : FunctionId) (inside : List Mark)

namespace Mark

mutual

/-- The node ids in a mark. -/
def nodes : Mark → List NodeId
  | .node id => [id]
  | .declaration _ => []
  | .function _ inside => nodesOf inside

/-- The node ids in an outline. -/
def nodesOf : List Mark → List NodeId
  | [] => []
  | m :: rest => nodes m ++ nodesOf rest

end

mutual

/-- The function ids in a mark. -/
def functions : Mark → List FunctionId
  | .node _ => []
  | .declaration _ => []
  | .function id inside => id :: functionsOf inside

/-- The function ids in an outline. -/
def functionsOf : List Mark → List FunctionId
  | [] => []
  | m :: rest => functions m ++ functionsOf rest

end

mutual

/-- Whether functions have smaller ids than the functions inside them, and declarations are no
expressions. -/
def Ordered : Mark → Prop
  | .node _ => True
  | .declaration isExpression => isExpression = false
  | .function id inside => (∀ k ∈ functionsOf inside, id < k) ∧ AllOrdered inside

/-- Whether all marks of an outline are ordered. -/
def AllOrdered : List Mark → Prop
  | [] => True
  | m :: rest => Ordered m ∧ AllOrdered rest

end

theorem nodesOf_eq_flatMap : ∀ l : List Mark, nodesOf l = l.flatMap nodes
  | [] => rfl
  | m :: rest => by rw [nodesOf, nodesOf_eq_flatMap rest, List.flatMap_cons]

theorem functionsOf_eq_flatMap : ∀ l : List Mark, functionsOf l = l.flatMap functions
  | [] => rfl
  | m :: rest => by rw [functionsOf, functionsOf_eq_flatMap rest, List.flatMap_cons]

theorem allOrdered_iff : ∀ l : List Mark, AllOrdered l ↔ ∀ m ∈ l, Ordered m
  | [] => by simp [AllOrdered]
  | m :: rest => by simp [AllOrdered, allOrdered_iff rest]

@[simp] theorem nodesOf_append (l l' : List Mark) :
    nodesOf (l ++ l') = nodesOf l ++ nodesOf l' := by
  simp only [nodesOf_eq_flatMap, List.flatMap_append]

@[simp] theorem functionsOf_append (l l' : List Mark) :
    functionsOf (l ++ l') = functionsOf l ++ functionsOf l' := by
  simp only [functionsOf_eq_flatMap, List.flatMap_append]

@[simp] theorem allOrdered_append (l l' : List Mark) :
    AllOrdered (l ++ l') ↔ AllOrdered l ∧ AllOrdered l' := by
  simp only [allOrdered_iff, List.mem_append, or_imp, forall_and]

end Mark

/-- The outline of an identifier occurrence. -/
def Identifier.mark (i : Identifier) : Mark := .node i.id

mutual

/-- The outline of an expression. -/
def Expr.marks : Expr → List Mark
  | .literal .. | .this _ => []
  | .identifier i => [i.mark]
  | .array _ elements => elementMarks elements
  | .object _ properties => propertyMarks properties
  | .function f => [f.mark]
  | .unary _ _ argument => argument.marks
  | .update _ _ t _ => t.marks
  | .binary _ _ left right => left.marks ++ right.marks
  | .logical _ _ left right => left.marks ++ right.marks
  | .assign _ _ t value => t.marks ++ value.marks
  | .conditional _ test consequent alternate =>
    test.marks ++ consequent.marks ++ alternate.marks
  | .call _ callee arguments => callee.marks ++ exprMarks arguments
  | .construct _ callee arguments => callee.marks ++ exprMarks arguments
  | .sequence _ expressions => exprMarks expressions
  | .member m => m.marks

/-- The outline of several expressions. -/
def exprMarks : List Expr → List Mark
  | [] => []
  | e :: rest => e.marks ++ exprMarks rest

/-- The outline of an expression that may be left out. -/
def optionMarks : Option Expr → List Mark
  | none => []
  | some e => e.marks

/-- The outline of the elements of an array. -/
def elementMarks : List (Option Expr) → List Mark
  | [] => []
  | none :: rest => elementMarks rest
  | some e :: rest => e.marks ++ elementMarks rest

/-- The outline of the properties of an object. -/
def propertyMarks : List Property → List Mark
  | [] => []
  | .mk _ _ value :: rest => value.marks ++ propertyMarks rest

/-- The outline of a property reference. -/
def Member.marks : Member → List Mark
  | .named _ object _ => object.marks
  | .computed _ object property => object.marks ++ property.marks

/-- The outline of what is assigned to. -/
def Target.marks : Target → List Mark
  | .identifier i => [i.mark]
  | .member m => m.marks

/-- The mark of a function. -/
def Func.mark : Func → Mark
  | .mk _ id none params _ _ _ body =>
    .function id (params.map Identifier.mark ++ stmtMarks body)
  | .mk _ id (some name) params _ _ _ body =>
    .function id (name.mark :: (params.map Identifier.mark ++ stmtMarks body))

/-- The outline of statements. -/
def stmtMarks : List Stmt → List Mark
  | [] => []
  | s :: rest => s.marks ++ stmtMarks rest

/-- The outline of a declaration. -/
def declaratorMarks : List Declarator → List Mark
  | [] => []
  | .mk _ name none :: rest => name.mark :: declaratorMarks rest
  | .mk _ name (some init) :: rest => name.mark :: (init.marks ++ declaratorMarks rest)

/-- The outline of the clauses of a `switch`. -/
def clauseMarks : List SwitchClause → List Mark
  | [] => []
  | .mk _ none body :: rest => stmtMarks body ++ clauseMarks rest
  | .mk _ (some test) body :: rest => test.marks ++ stmtMarks body ++ clauseMarks rest

/-- The outline of a block. -/
def Block.marks : Block → List Mark
  | .mk _ body => stmtMarks body

/-- The outline of a `catch` clause. -/
def Handler.marks : Handler → List Mark
  | .mk _ param body => param.mark :: body.marks

/-- The outline of what comes first in the head of a `for` loop. -/
def ForInit.marks : ForInit → List Mark
  | .nothing => []
  | .declaration _ ds => declaratorMarks ds
  | .expression e => e.marks

/-- The outline of what the keys of a `for`-`in` loop are assigned to. -/
def ForInTarget.marks : ForInTarget → List Mark
  | .declaration i => [i.mark]
  | .target t => t.marks

/-- The outline of a statement. -/
def Stmt.marks : Stmt → List Mark
  | .expression _ e => e.marks
  | .block b => b.marks
  | .empty _ | .debugger _ | .brk .. | .cont .. | .ret _ none => []
  | .ret _ (some e) => e.marks
  | .labeled _ _ body => body.marks
  | .conditional _ test consequent none => test.marks ++ consequent.marks
  | .conditional _ test consequent (some alternate) =>
    test.marks ++ consequent.marks ++ alternate.marks
  | .switch _ discriminant clauses => discriminant.marks ++ clauseMarks clauses
  | .throw _ e => e.marks
  | .tryCatch _ b h f =>
    let handled := match h with
      | some h => h.marks
      | none => []
    let finished := match f with
      | some f => f.marks
      | none => []
    b.marks ++ handled ++ finished
  | .while _ test body => test.marks ++ body.marks
  | .doWhile _ test body => body.marks ++ test.marks
  | .for _ init test update body =>
    init.marks ++ optionMarks test ++ optionMarks update ++ body.marks
  | .forIn _ left right body => left.marks ++ right.marks ++ body.marks
  | .with _ id object body => object.marks ++ body.marks ++ [.node id]
  | .declaration _ ds => declaratorMarks ds
  | .function f => [.declaration f.isExpression, f.mark]

end

attribute [simp] Expr.marks exprMarks optionMarks elementMarks propertyMarks Member.marks
  Target.marks
  Func.mark stmtMarks declaratorMarks clauseMarks Block.marks Handler.marks ForInit.marks
  ForInTarget.marks Stmt.marks

/-- The outline of a script. -/
def Program.marks (p : Program) : List Mark := stmtMarks p.body

end ScriptEngine
