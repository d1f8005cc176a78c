import ScriptEngine.Script.Ast

/-!
# Pieces of bodies

A body is made of its expressions and of the places where variables get their values in other ways
than by an expression.  What is inside a nested function is no piece of the body around it.

## Main definitions

* `Piece` : a piece of a body.
* `Expr.pieces`, `Stmt.pieces` : the pieces of an expression or statement.
* `bodyPieces` : the pieces of a body.
-/

namespace ScriptEngine

/-- A piece of a body. -/
inductive Piece where
  /-- An expression; a declaration with a value is an assignment. -/
  | expr (e : Expr)
  /-- The keys of a `for`-`in` loop are written to a name. -/
  | key (i : Identifier)
  /-- A `catch` clause gives its parameter a value. -/
  | caught (param : Identifier)
  /-- A `with` statement keeps its object. -/
  | held (id : NodeId)
  /-- A function declaration gives its name a value. -/
  | declared (f : Func)
  /-- A function expression has its own name inside its body. -/
  | self

/-- The function that a piece makes. -/
def Piece.function? : Piece → Option Func
  | .expr (.function f) | .declared f => some f
  | _ => none

/-! ### Expressions -/

mutual

/-- The pieces of an expression other than the expression itself. -/
def Expr.inner : Expr → List Piece
  | .literal .. | .identifier _ | .this _ | .function _ => []
  | .array _ elements => elementPieces elements
  | .object _ properties => propertyPieces properties
  | .unary _ _ argument => .expr argument :: argument.inner
  | .update _ _ t _ => t.inner
  | .binary _ _ left right => (.expr left :: left.inner) ++ (.expr right :: right.inner)
  | .logical _ _ left right => (.expr left :: left.inner) ++ (.expr right :: right.inner)
  | .assign _ _ t value => t.inner ++ (.expr value :: value.inner)
  | .conditional _ test consequent alternate =>
    (.expr test :: test.inner) ++
      ((.expr consequent :: consequent.inner) ++ (.expr alternate :: alternate.inner))
  | .call _ callee arguments => (.expr callee :: callee.inner) ++ exprPieces arguments
  | .construct _ callee arguments => (.expr callee :: callee.inner) ++ exprPieces arguments
  | .sequence _ expressions => exprPieces expressions
  | .member m => m.inner
termination_by structural x => x

/-- The pieces of several expressions. -/
def exprPieces : List Expr → List Piece
  | [] => []
  | e :: rest => (.expr e :: e.inner) ++ exprPieces rest
termination_by structural x => x

/-- The pieces of the elements of an array. -/
def elementPieces : List (Option Expr) → List Piece
  | [] => []
  | none :: rest => elementPieces rest
  | some e :: rest => (.expr e :: e.inner) ++ elementPieces rest
termination_by structural x => x

/-- The pieces of the properties of an object. -/
def propertyPieces : List Property → List Piece
  | [] => []
  | .mk _ _ value :: rest => (.expr value :: value.inner) ++ propertyPieces rest
termination_by structural x => x

/-- The pieces of a property reference. -/
def Member.inner : Member → List Piece
  | .named _ object _ => .expr object :: object.inner
  | .computed _ object property =>
    (.expr object :: object.inner) ++ (.expr property :: property.inner)
termination_by structural x => x

/-- The pieces of what is assigned to. -/
def Target.inner : Target → List Piece
  | .identifier _ => []
  | .member m => m.inner
termination_by structural x => x

end

/-- The pieces of an expression, itself included. -/
def Expr.pieces (e : Expr) : List Piece :=
  .expr e :: e.inner

/-- The pieces of an expression that may be left out. -/
def optionPieces : Option Expr → List Piece
  | none => []
  | some e => e.pieces

/-! ### Statements -/

/-- The pieces of a declaration. -/
def declaratorPieces : List Declarator → List Piece
  | [] => []
  | .mk _ _ none :: rest => declaratorPieces rest
  | .mk span name (some init) :: rest =>
    (Expr.assign span .plain (.identifier name) init).pieces ++ declaratorPieces rest

/-- The pieces of the first part of the head of a `for` loop. -/
def ForInit.pieces : ForInit → List Piece
  | .nothing => []
  | .declaration _ ds => declaratorPieces ds
  | .expression e => e.pieces

/-- The pieces of what the keys of a `for`-`in` loop are assigned to. -/
def ForInTarget.pieces : ForInTarget → List Piece
  | .declaration i => [.key i]
  | .target (.identifier i) => [.key i]
  | .target (.member m) => m.inner

mutual

/-- The pieces of statements. -/
def stmtPieces : List Stmt → List Piece
  | [] => []
  | s :: rest => s.pieces ++ stmtPieces rest
termination_by structural x => x

/-- The pieces of the clauses of a `switch`. -/
def clausePieces : List SwitchClause → List Piece
  | [] => []
  | .mk _ test body :: rest => optionPieces test ++ (stmtPieces body ++ clausePieces rest)
termination_by structural x => x

/-- The pieces of a block. -/
def Block.pieces : Block → List Piece
  | .mk _ body => stmtPieces body
termination_by structural x => x

/-- The pieces of a `catch` clause. -/
def Handler.pieces : Handler → List Piece
  | .mk _ param body => .caught param :: body.pieces
termination_by structural x => x

/-- The pieces of a statement. -/
def Stmt.pieces : Stmt → List Piece
  | .empty _ | .debugger _ | .brk .. | .cont .. => []
  | .expression _ e => e.pieces
  | .block b => b.pieces
  | .ret _ e => optionPieces e
  | .throw _ e => e.pieces
  | .labeled _ _ body => body.pieces
  | .conditional _ test consequent none => test.pieces ++ consequent.pieces
  | .conditional _ test consequent (some alternate) =>
    test.pieces ++ (consequent.pieces ++ alternate.pieces)
  | .switch _ discriminant clauses => discriminant.pieces ++ clausePieces clauses
  | .tryCatch _ b h f =>
    b.pieces ++
      ((match h with
        | some h => h.pieces
        | none => []) ++
      (match f with
        | some f => f.pieces
        | none => []))
  | .while _ test body => test.pieces ++ body.pieces
  | .doWhile _ test body => body.pieces ++ test.pieces
  | .for _ init test update body =>
    init.pieces ++ (optionPieces test ++ (optionPieces update ++ body.pieces))
  | .forIn _ left right body => right.pieces ++ (left.pieces ++ body.pieces)
  | .with _ id object body => .held id :: (object.pieces ++ body.pieces)
  | .declaration _ ds => declaratorPieces ds
  | .function f => [.declared f]
termination_by structural x => x

end

/-- The pieces of a body. -/
def bodyPieces (isProgram : Bool) (body : List Stmt) : List Piece :=
  (if isProgram then [] else [.self]) ++ stmtPieces body

end ScriptEngine
