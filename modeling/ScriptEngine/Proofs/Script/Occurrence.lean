import ScriptEngine.Script.Ast

/-!
# Occurrences of names

Where a script asks for variables, read from its syntax: the identifiers that stand for a variable,
and the parameters, statements and declarations that have one of their own, each with the scopes
around it.

## Main definitions

* `Scope` : a scope around a place.
* `Scope.path` : the functions around a place.
* `Mention`, `Occurrence` : what stands for a variable, and where.
* `Expr.occurrences`, `Stmt.occurrences`, `Program.occurrences` : all of them.
-/

namespace ScriptEngine

/-- A scope around a place, apart from the script itself: a `catch` clause with its parameter, a
`with` statement or the body of a function. -/
inductive Scope where
  | catch (param : Identifier)
  | with (id : NodeId)
  | function (f : Func)

namespace Scope

/-- The functions around a place, innermost first, and last the script. -/
def path : List Scope → List FunctionId
  | [] => [0]
  | .function f :: rest => f.id :: path rest
  | .catch _ :: rest => path rest
  | .with _ :: rest => path rest

/-- The function or script that a place belongs to. -/
def owner : List Scope → FunctionId
  | [] => 0
  | .function f :: _ => f.id
  | .catch _ :: rest => owner rest
  | .with _ :: rest => owner rest

/-- The scopes around a function declaration, which is made when the body around it is entered: the
`catch` and `with` scopes of that body do not count. -/
def hoisted : List Scope → List Scope
  | [] => []
  | .function f :: rest => .function f :: rest
  | .catch _ :: rest => hoisted rest
  | .with _ :: rest => hoisted rest

@[simp] theorem path_hoisted : ∀ scopes : List Scope, path (hoisted scopes) = path scopes
  | [] => rfl
  | .function _ :: _ => rfl
  | .catch _ :: rest => path_hoisted rest
  | .with _ :: rest => path_hoisted rest

theorem path_eq_cons : ∀ scopes : List Scope, ∃ rest, path scopes = owner scopes :: rest
  | [] => ⟨[], rfl⟩
  | .function _ :: rest => ⟨path rest, rfl⟩
  | .catch _ :: rest => path_eq_cons rest
  | .with _ :: rest => path_eq_cons rest

end Scope

/-- What stands for a variable. -/
inductive Mention where
  /-- An identifier in an expression, a `var` declaration or the head of a `for`-`in` loop. -/
  | identifier (i : Identifier)
  /-- The parameter of a `catch` clause. -/
  | parameter (i : Identifier)
  /-- A `with` statement, which keeps its object. -/
  | holder (id : NodeId)
  /-- The name of a function declaration. -/
  | declared (i : Identifier)

/-- What stands for a variable, and the scopes around it, innermost first. -/
structure Occurrence where
  mention : Mention
  scopes : List Scope

mutual

/-- The occurrences in an expression. -/
def Expr.occurrences (scopes : List Scope) : Expr → List Occurrence
  | .literal .. | .this _ => []
  | .identifier i => [⟨.identifier i, scopes⟩]
  | .array _ elements => elementOccurrences scopes elements
  | .object _ properties => propertyOccurrences scopes properties
  | .function f => f.occurrences scopes
  | .unary _ _ argument => argument.occurrences scopes
  | .update _ _ t _ => t.occurrences scopes
  | .binary _ _ left right => left.occurrences scopes ++ right.occurrences scopes
  | .logical _ _ left right => left.occurrences scopes ++ right.occurrences scopes
  | .assign _ _ t value => t.occurrences scopes ++ value.occurrences scopes
  | .conditional _ test consequent alternate =>
    test.occurrences scopes ++ (consequent.occurrences scopes ++ alternate.occurrences scopes)
  | .call _ callee arguments => callee.occurrences scopes ++ exprOccurrences scopes arguments
  | .construct _ callee arguments => callee.occurrences scopes ++ exprOccurrences scopes arguments
  | .sequence _ expressions => exprOccurrences scopes expressions
  | .member m => m.occurrences scopes

/-- The occurrences in several expressions. -/
def exprOccurrences (scopes : List Scope) : List Expr → List Occurrence
  | [] => []
  | e :: rest => e.occurrences scopes ++ exprOccurrences scopes rest

/-- The occurrences in an expression that may be left out. -/
def optionOccurrences (scopes : List Scope) : Option Expr → List Occurrence
  | none => []
  | some e => e.occurrences scopes

/-- The occurrences in the elements of an array. -/
def elementOccurrences (scopes : List Scope) : List (Option Expr) → List Occurrence
  | [] => []
  | none :: rest => elementOccurrences scopes rest
  | some e :: rest => e.occurrences scopes ++ elementOccurrences scopes rest

/-- The occurrences in the properties of an object. -/
def propertyOccurrences (scopes : List Scope) : List Property → List Occurrence
  | [] => []
  | .mk _ _ value :: rest => value.occurrences scopes ++ propertyOccurrences scopes rest

/-- The occurrences in a property reference. -/
def Member.occurrences (scopes : List Scope) : Member → List Occurrence
  | .named _ object _ => object.occurrences scopes
  | .computed _ object property => object.occurrences scopes ++ property.occurrences scopes

/-- The occurrences in what is assigned to. -/
def Target.occurrences (scopes : List Scope) : Target → List Occurrence
  | .identifier i => [⟨.identifier i, scopes⟩]
  | .member m => m.occurrences scopes

/-- The occurrences in a function. -/
def Func.occurrences (scopes : List Scope) : Func → List Occurrence
  | .mk span id name params strict isExpression bodySpan body =>
    stmtOccurrences (.function (.mk span id name params strict isExpression bodySpan body) ::
      scopes) body

/-- The occurrences in statements. -/
def stmtOccurrences (scopes : List Scope) : List Stmt → List Occurrence
  | [] => []
  | s :: rest => s.occurrences scopes ++ stmtOccurrences scopes rest

/-- The occurrences in a declaration. -/
def declaratorOccurrences (scopes : List Scope) : List Declarator → List Occurrence
  | [] => []
  | .mk _ name none :: rest => [⟨.identifier name, scopes⟩] ++ declaratorOccurrences scopes rest
  | .mk _ name (some init) :: rest =>
    [⟨.identifier name, scopes⟩] ++ (init.occurrences scopes ++ declaratorOccurrences scopes rest)

/-- The occurrences in the clauses of a `switch`. -/
def clauseOccurrences (scopes : List Scope) : List SwitchClause → List Occurrence
  | [] => []
  | .mk _ none body :: rest => stmtOccurrences scopes body ++ clauseOccurrences scopes rest
  | .mk _ (some test) body :: rest =>
    test.occurrences scopes ++ (stmtOccurrences scopes body ++ clauseOccurrences scopes rest)

/-- The occurrences in a block. -/
def Block.occurrences (scopes : List Scope) : Block → List Occurrence
  | .mk _ body => stmtOccurrences scopes body

/-- The occurrences in a `catch` clause. -/
def Handler.occurrences (scopes : List Scope) : Handler → List Occurrence
  | .mk _ param body => ⟨.parameter param, scopes⟩ :: body.occurrences (.catch param :: scopes)

/-- The occurrences in what comes first in the head of a `for` loop. -/
def ForInit.occurrences (scopes : List Scope) : ForInit → List Occurrence
  | .nothing => []
  | .declaration _ ds => declaratorOccurrences scopes ds
  | .expression e => e.occurrences scopes

/-- The occurrences in what the keys of a `for`-`in` loop are assigned to. -/
def ForInTarget.occurrences (scopes : List Scope) : ForInTarget → List Occurrence
  | .declaration i => [⟨.identifier i, scopes⟩]
  | .target t => t.occurrences scopes

/-- The occurrences in a statement. -/
def Stmt.occurrences (scopes : List Scope) : Stmt → List Occurrence
  | .expression _ e => e.occurrences scopes
  | .block b => b.occurrences scopes
  | .empty _ | .debugger _ | .brk .. | .cont .. | .ret _ none => []
  | .ret _ (some e) => e.occurrences scopes
  | .labeled _ _ body => body.occurrences scopes
  | .conditional _ test consequent none => test.occurrences scopes ++ consequent.occurrences scopes
  | .conditional _ test consequent (some alternate) =>
    test.occurrences scopes ++ (consequent.occurrences scopes ++ alternate.occurrences scopes)
  | .switch _ discriminant clauses =>
    discriminant.occurrences scopes ++ clauseOccurrences scopes clauses
  | .throw _ e => e.occurrences scopes
  | .tryCatch _ b none none => b.occurrences scopes
  | .tryCatch _ b none (some f) => b.occurrences scopes ++ f.occurrences scopes
  | .tryCatch _ b (some h) none => b.occurrences scopes ++ h.occurrences scopes
  | .tryCatch _ b (some h) (some f) =>
    b.occurrences scopes ++ (h.occurrences scopes ++ f.occurrences scopes)
  | .while _ test body => test.occurrences scopes ++ body.occurrences scopes
  | .doWhile _ test body => test.occurrences scopes ++ body.occurrences scopes
  | .for _ init test update body =>
    init.occurrences scopes ++
      (optionOccurrences scopes test ++
        (optionOccurrences scopes update ++ body.occurrences scopes))
  | .forIn _ left right body =>
    left.occurrences scopes ++ (right.occurrences scopes ++ body.occurrences scopes)
  | .with _ id object body =>
    object.occurrences scopes ++ ⟨.holder id, scopes⟩ :: body.occurrences (.with id :: scopes)
  | .declaration _ ds => declaratorOccurrences scopes ds
  | .function f =>
    (match f with
      | .mk _ _ (some i) _ _ _ _ _ => [⟨.declared i, scopes⟩]
      | _ => []) ++ f.occurrences (Scope.hoisted scopes)

end

/-- The occurrences in a script. -/
def Program.occurrences (p : Program) : List Occurrence :=
  stmtOccurrences [] p.body

end ScriptEngine
