import ScriptEngine.Grammar.Tree
import ScriptEngine.Script.Operator

/-!
# Abstract syntax

Scripts as trees of statements and expressions.  Every identifier occurrence and every `with`
statement has a number of its own, its node id; every function has a function id, the script itself
being function zero.

## Main definitions

* `Expr`, `Member`, `Target` : expressions, property references, and what may be assigned to.
* `Stmt`, `Func` : statements and functions.
* `Program` : a whole script.
* `Stmt.declaredNames`, `Stmt.functions` : the `var` names and the function declarations of a
  statement outside nested functions.
-/

namespace ScriptEngine

/-- The number of an identifier occurrence or of a `with` statement. -/
abbrev NodeId := Nat

/-- The number of a function; the script itself is function zero. -/
abbrev FunctionId := Nat

/-- An occurrence of an identifier. -/
structure Identifier where
  id : NodeId
  name : String
  span : Span
deriving Repr, Inhabited

/-- The value of a literal. -/
inductive Literal where
  | null
  | boolean (value : Bool)
  | string (value : String)
  | number (value : Float)
  | regularExpression (pattern flags : String)
deriving Repr, Inhabited

mutual

/-- Expressions. -/
inductive Expr where
  | literal (span : Span) (value : Literal)
  | identifier (name : Identifier)
  | this (span : Span)
  | array (span : Span) (elements : List (Option Expr))
  | object (span : Span) (properties : List Property)
  | function (f : Func)
  | unary (span : Span) (op : UnaryOp) (argument : Expr)
  | update (span : Span) (op : UpdateOp) (target : Target) (before : Bool)
  | binary (span : Span) (op : BinaryOp) (left right : Expr)
  | logical (span : Span) (op : LogicalOp) (left right : Expr)
  | assign (span : Span) (op : AssignOp) (target : Target) (value : Expr)
  | conditional (span : Span) (test consequent alternate : Expr)
  | call (span : Span) (callee : Expr) (arguments : List Expr)
  | construct (span : Span) (callee : Expr) (arguments : List Expr)
  | sequence (span : Span) (expressions : List Expr)
  | member (m : Member)

/-- References to a property of an object. -/
inductive Member where
  | named (span : Span) (object : Expr) (property : String)
  | computed (span : Span) (object property : Expr)

/-- What may be assigned to: a variable or a property. -/
inductive Target where
  | identifier (name : Identifier)
  | member (m : Member)

/-- One property of an object literal. -/
inductive Property where
  | mk (span : Span) (key : String) (value : Expr)

/-- Functions.  A function expression binds its own name inside its body, a declaration outside. -/
inductive Func where
  | mk (span : Span) (id : FunctionId) (name : Option Identifier) (params : List Identifier)
      (strict isExpression : Bool) (bodySpan : Span) (body : List Stmt)

/-- One variable of a `var` declaration. -/
inductive Declarator where
  | mk (span : Span) (name : Identifier) (init : Option Expr)

/-- What comes first in the head of a `for` loop. -/
inductive ForInit where
  | nothing
  | declaration (span : Span) (declarators : List Declarator)
  | expression (e : Expr)

/-- What the keys of a `for`-`in` loop are assigned to. -/
inductive ForInTarget where
  | declaration (name : Identifier)
  | target (t : Target)

/-- One clause of a `switch`; the default clause has no test. -/
inductive SwitchClause where
  | mk (span : Span) (test : Option Expr) (body : List Stmt)

/-- Statements in braces. -/
inductive Block where
  | mk (span : Span) (body : List Stmt)

/-- The `catch` clause of a `try`. -/
inductive Handler where
  | mk (span : Span) (param : Identifier) (body : Block)

/-- Statements. -/
inductive Stmt where
  | expression (span : Span) (e : Expr)
  | block (b : Block)
  | empty (span : Span)
  | debugger (span : Span)
  | ret (span : Span) (argument : Option Expr)
  | brk (span : Span) (label : Option String)
  | cont (span : Span) (label : Option String)
  | labeled (span : Span) (label : String) (body : Stmt)
  | conditional (span : Span) (test : Expr) (consequent : Stmt) (alternate : Option Stmt)
  | switch (span : Span) (discriminant : Expr) (clauses : List SwitchClause)
  | throw (span : Span) (argument : Expr)
  | tryCatch (span : Span) (block : Block) (handler : Option Handler) (finalizer : Option Block)
  | while (span : Span) (test : Expr) (body : Stmt)
  | doWhile (span : Span) (test : Expr) (body : Stmt)
  | for (span : Span) (init : ForInit) (test update : Option Expr) (body : Stmt)
  | forIn (span : Span) (left : ForInTarget) (right : Expr) (body : Stmt)
  | with (span : Span) (id : NodeId) (object : Expr) (body : Stmt)
  | declaration (span : Span) (declarators : List Declarator)
  | function (f : Func)

end

instance : Inhabited Expr := ⟨.this default⟩

instance : Inhabited Stmt := ⟨.empty default⟩

/-- A whole script. -/
structure Program where
  span : Span
  body : List Stmt
  strict : Bool
  /-- The number of functions, the script included. -/
  functionCount : Nat
  /-- The number of node ids. -/
  nodeCount : Nat

/-! ### Parts of nodes -/

namespace Func

/-- The range of a function. -/
def span : Func → Span
  | .mk span .. => span

/-- The number of a function. -/
def id : Func → FunctionId
  | .mk _ id .. => id

/-- The identifier that names a function. -/
def identifier? : Func → Option Identifier
  | .mk _ _ name .. => name

/-- The name of a function, empty if it has none. -/
def name (f : Func) : String :=
  (f.identifier?.map (·.name)).getD ""

/-- The parameters of a function. -/
def params : Func → List Identifier
  | .mk _ _ _ params .. => params

/-- Whether a function is strict by its own or an enclosing directive. -/
def strict : Func → Bool
  | .mk _ _ _ _ strict .. => strict

/-- Whether a function is an expression. -/
def isExpression : Func → Bool
  | .mk _ _ _ _ _ isExpression .. => isExpression

/-- The range of a function's body. -/
def bodySpan : Func → Span
  | .mk _ _ _ _ _ _ bodySpan _ => bodySpan

/-- The statements of a function's body. -/
def body : Func → List Stmt
  | .mk _ _ _ _ _ _ _ body => body

end Func

/-- The range of a property reference. -/
def Member.span : Member → Span
  | .named span .. => span
  | .computed span .. => span

/-- The range of an expression. -/
def Expr.span : Expr → Span
  | .literal span _ => span
  | .identifier name => name.span
  | .this span => span
  | .array span _ => span
  | .object span _ => span
  | .function f => f.span
  | .unary span .. => span
  | .update span .. => span
  | .binary span .. => span
  | .logical span .. => span
  | .assign span .. => span
  | .conditional span .. => span
  | .call span .. => span
  | .construct span .. => span
  | .sequence span _ => span
  | .member m => m.span

/-- The variable or property that an expression refers to, if it does. -/
def Expr.target? : Expr → Option Target
  | .identifier name => some (.identifier name)
  | .member m => some (.member m)
  | _ => none

/-- The expression that reads a target. -/
def Target.toExpr : Target → Expr
  | .identifier name => .identifier name
  | .member m => .member m

/-- The statements of a block. -/
def Block.body : Block → List Stmt
  | .mk _ body => body

/-! ### Hoisted declarations -/

/-- The names of declarators. -/
def Declarator.name : Declarator → String
  | .mk _ name _ => name.name

mutual

/-- The `var` names of a statement outside nested functions, in source order. -/
def Stmt.varNames : Stmt → List String
  | .declaration _ ds => ds.map Declarator.name
  | .block b => Block.varNames b
  | .labeled _ _ body => body.varNames
  | .while _ _ body => body.varNames
  | .doWhile _ _ body => body.varNames
  | .with _ _ _ body => body.varNames
  | .conditional _ _ c none => c.varNames
  | .conditional _ _ c (some a) => c.varNames ++ a.varNames
  | .for _ (.declaration _ ds) _ _ body => ds.map Declarator.name ++ body.varNames
  | .for _ _ _ _ body => body.varNames
  | .forIn _ (.declaration name) _ body => name.name :: body.varNames
  | .forIn _ _ _ body => body.varNames
  | .switch _ _ clauses => clausesVarNames clauses
  | .tryCatch _ b h f =>
    let handled := match h with
      | some (.mk _ _ hb) => Block.varNames hb
      | none => []
    let finished := match f with
      | some fb => Block.varNames fb
      | none => []
    Block.varNames b ++ handled ++ finished
  | .expression .. | .empty _ | .debugger _ | .ret .. | .brk .. | .cont .. | .throw ..
  | .function _ => []

/-- The `var` names of a block. -/
def Block.varNames : Block → List String
  | .mk _ body => bodyVarNames body

/-- The `var` names of statements. -/
def bodyVarNames : List Stmt → List String
  | [] => []
  | s :: ss => s.varNames ++ bodyVarNames ss

/-- The `var` names of the clauses of a `switch`. -/
def clausesVarNames : List SwitchClause → List String
  | [] => []
  | .mk _ _ body :: rest => bodyVarNames body ++ clausesVarNames rest

end

mutual

/-- The function declarations of a statement outside nested functions, in source order. -/
def Stmt.functions : Stmt → List Func
  | .function f => [f]
  | .block b => Block.functions b
  | .labeled _ _ body => body.functions
  | .while _ _ body => body.functions
  | .doWhile _ _ body => body.functions
  | .with _ _ _ body => body.functions
  | .conditional _ _ c none => c.functions
  | .conditional _ _ c (some a) => c.functions ++ a.functions
  | .for _ _ _ _ body => body.functions
  | .forIn _ _ _ body => body.functions
  | .switch _ _ clauses => clausesFunctions clauses
  | .tryCatch _ b h f =>
    let handled := match h with
      | some (.mk _ _ hb) => Block.functions hb
      | none => []
    let finished := match f with
      | some fb => Block.functions fb
      | none => []
    Block.functions b ++ handled ++ finished
  | .expression .. | .empty _ | .debugger _ | .ret .. | .brk .. | .cont .. | .throw ..
  | .declaration .. => []

/-- The function declarations of a block. -/
def Block.functions : Block → List Func
  | .mk _ body => bodyFunctions body

/-- The function declarations of statements. -/
def bodyFunctions : List Stmt → List Func
  | [] => []
  | s :: ss => s.functions ++ bodyFunctions ss

/-- The function declarations of the clauses of a `switch`. -/
def clausesFunctions : List SwitchClause → List Func
  | [] => []
  | .mk _ _ body :: rest => bodyFunctions body ++ clausesFunctions rest

end

/-- The first occurrence of each name, in order. -/
def distinctNames (names : List String) : List String :=
  names.foldl (fun seen n => if seen.contains n then seen else seen ++ [n]) []

/-- The variables that a body declares with `var`, each once, in the order of first declaration. -/
def declaredNames (body : List Stmt) : List String :=
  distinctNames (bodyVarNames body)

end ScriptEngine
