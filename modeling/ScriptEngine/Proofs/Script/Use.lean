import ScriptEngine.Analysis.Resolution

/-!
# What strict code restricts

The places of a script at which strict code may not do what other code may: where names are bound,
written and deleted, and the `with` statements.  They are listed in the order in which resolution
comes to them, each with the strictness of the code that it stands in; a function has that of the
code around it and its own.

## Main definitions

* `Use` : what happens at such a place.
* `Use.violation?` : what is reported if it happens in strict code.
* `Expr.uses`, `Stmt.uses`, `Program.uses` : the places.
* `Program.violations` : what strict code does wrong.
-/

namespace ScriptEngine

/-- What code does that strict code may not do, or not with all names. -/
inductive Use where
  /-- A function has a name. -/
  | functionName (name : String)
  /-- A function has a parameter. -/
  | parameter (name : String)
  /-- An earlier parameter has the same name. -/
  | repeated (name : String)
  /-- A `catch` clause has a parameter. -/
  | catchParameter (name : String)
  /-- A name is the target of an assignment, plain or compound, or of an update. -/
  | written (name : String)
  /-- A `var` declaration, also in the head of a loop. -/
  | declared (name : String)
  /-- The keys of a `for`-`in` loop are assigned to a name. -/
  | key (name : String)
  /-- A name is the operand of `delete`. -/
  | deleted (name : String)
  /-- A `with` statement. -/
  | withObject
deriving DecidableEq

namespace Use

/-- The name that is bound or written. -/
def bound? : Use → Option String
  | .functionName name | .parameter name | .repeated name | .catchParameter name | .written name
  | .declared name | .key name => some name
  | .deleted _ | .withObject => none

/-- The name is that of a variable or of the keys of a loop, which no rule is about. -/
def IsUnchecked : Use → Prop
  | .declared _ | .key _ => True
  | .functionName _ | .parameter _ | .repeated _ | .catchParameter _ | .written _ | .deleted _
  | .withObject => False

/-- A restricted name is reported. -/
def restricted? (name : String) : Option StaticError :=
  if isRestrictedName name then some (.restrictedName name) else none

/-- What is reported if strict code does it. -/
def violation? : Use → Option StaticError
  | .functionName name | .parameter name | .catchParameter name | .written name => restricted? name
  | .repeated name => some (.duplicateParameter name)
  | .deleted name => some (.deleteOfIdentifier name)
  | .withObject => some .withInStrictMode
  | .declared _ | .key _ => none

end Use

/-- What happens at a place of a script, and whether this place is in strict code. -/
structure UseSite where
  strict : Bool
  use : Use
deriving DecidableEq

/-- What is reported of a place. -/
def UseSite.violation? (x : UseSite) : Option StaticError :=
  if x.strict then x.use.violation? else none

/-- What is reported of several places, in their order. -/
def violations (xs : List UseSite) : List StaticError :=
  xs.filterMap UseSite.violation?

@[simp] theorem violations_nil : violations [] = [] :=
  rfl

theorem violations_cons (x : UseSite) (xs : List UseSite) :
    violations (x :: xs) = x.violation?.toList ++ violations xs := by
  unfold violations
  cases h : x.violation? <;> simp [h]

@[simp] theorem violations_append (xs ys : List UseSite) :
    violations (xs ++ ys) = violations xs ++ violations ys :=
  List.filterMap_append

/-! ### Places -/

/-- The parameters of a function, given the names of those before them. -/
def parameterUses (strict : Bool) (seen : List String) : List Identifier → List UseSite
  | [] => []
  | p :: rest =>
    ⟨strict, .parameter p.name⟩ ::
      ((if seen.contains p.name then [⟨strict, .repeated p.name⟩] else []) ++
      parameterUses strict (p.name :: seen) rest)

/-- The name of a function. -/
def nameUses (strict : Bool) : Option Identifier → List UseSite
  | none => []
  | some name => [⟨strict, .functionName name.name⟩]

/-- A name that is assigned to. -/
def Target.written (strict : Bool) : Target → List UseSite
  | .identifier i => [⟨strict, .written i.name⟩]
  | .member _ => []

/-- A name that is deleted. -/
def deletions (strict : Bool) : UnaryOp → Expr → List UseSite
  | .delete, .identifier i => [⟨strict, .deleted i.name⟩]
  | _, _ => []

mutual

/-- The places in an expression. -/
def Expr.uses (strict : Bool) : Expr → List UseSite
  | .literal .. | .this _ | .identifier _ => []
  | .array _ elements => elementUses strict elements
  | .object _ properties => propertyUses strict properties
  | .function f => f.uses strict
  | .unary _ op argument => deletions strict op argument ++ argument.uses strict
  | .update _ _ t _ => t.written strict ++ t.uses strict
  | .binary _ _ left right => left.uses strict ++ right.uses strict
  | .logical _ _ left right => left.uses strict ++ right.uses strict
  | .assign _ _ t value => t.written strict ++ (t.uses strict ++ value.uses strict)
  | .conditional _ test consequent alternate =>
    test.uses strict ++ (consequent.uses strict ++ alternate.uses strict)
  | .call _ callee arguments => callee.uses strict ++ exprUses strict arguments
  | .construct _ callee arguments => callee.uses strict ++ exprUses strict arguments
  | .sequence _ expressions => exprUses strict expressions
  | .member m => m.uses strict

/-- The places in several expressions. -/
def exprUses (strict : Bool) : List Expr → List UseSite
  | [] => []
  | e :: rest => e.uses strict ++ exprUses strict rest

/-- The places in an expression that may be left out. -/
def optionUses (strict : Bool) : Option Expr → List UseSite
  | none => []
  | some e => e.uses strict

/-- The places in the elements of an array. -/
def elementUses (strict : Bool) : List (Option Expr) → List UseSite
  | [] => []
  | none :: rest => elementUses strict rest
  | some e :: rest => e.uses strict ++ elementUses strict rest

/-- The places in the properties of an object. -/
def propertyUses (strict : Bool) : List Property → List UseSite
  | [] => []
  | .mk _ _ value :: rest => value.uses strict ++ propertyUses strict rest

/-- The places in a property reference. -/
def Member.uses (strict : Bool) : Member → List UseSite
  | .named _ object _ => object.uses strict
  | .computed _ object property => object.uses strict ++ property.uses strict

/-- The places inside of what is assigned to. -/
def Target.uses (strict : Bool) : Target → List UseSite
  | .identifier _ => []
  | .member m => m.uses strict

/-- The places in a function. -/
def Func.uses (strict : Bool) : Func → List UseSite
  | .mk _ _ name params own _ _ body =>
    (nameUses (own || strict) name ++ parameterUses (own || strict) [] params) ++
      stmtUses (own || strict) body

/-- The places in statements. -/
def stmtUses (strict : Bool) : List Stmt → List UseSite
  | [] => []
  | s :: rest => s.uses strict ++ stmtUses strict rest

/-- The places in a declaration. -/
def declaratorUses (strict : Bool) : List Declarator → List UseSite
  | [] => []
  | .mk _ name none :: rest => ⟨strict, .declared name.name⟩ :: declaratorUses strict rest
  | .mk _ name (some init) :: rest =>
    ⟨strict, .declared name.name⟩ :: (init.uses strict ++ declaratorUses strict rest)

/-- The places in the clauses of a `switch`. -/
def clauseUses (strict : Bool) : List SwitchClause → List UseSite
  | [] => []
  | .mk _ none body :: rest => stmtUses strict body ++ clauseUses strict rest
  | .mk _ (some test) body :: rest =>
    test.uses strict ++ (stmtUses strict body ++ clauseUses strict rest)

/-- The places in a block. -/
def Block.uses (strict : Bool) : Block → List UseSite
  | .mk _ body => stmtUses strict body

/-- The places in a `catch` clause. -/
def Handler.uses (strict : Bool) : Handler → List UseSite
  | .mk _ param body => [⟨strict, .catchParameter param.name⟩] ++ body.uses strict

/-- The places in what comes first in the head of a `for` loop. -/
def ForInit.uses (strict : Bool) : ForInit → List UseSite
  | .nothing => []
  | .declaration _ ds => declaratorUses strict ds
  | .expression e => e.uses strict

/-- The places in what the keys of a `for`-`in` loop are assigned to. -/
def ForInTarget.uses (strict : Bool) : ForInTarget → List UseSite
  | .declaration name => [⟨strict, .declared name.name⟩]
  | .target (.identifier i) => [⟨strict, .key i.name⟩]
  | .target (.member m) => m.uses strict

/-- The places in a statement. -/
def Stmt.uses (strict : Bool) : Stmt → List UseSite
  | .expression _ e => e.uses strict
  | .block b => b.uses strict
  | .empty _ | .debugger _ | .brk .. | .cont .. | .ret _ none => []
  | .ret _ (some e) => e.uses strict
  | .labeled _ _ body => body.uses strict
  | .conditional _ test consequent none => test.uses strict ++ consequent.uses strict
  | .conditional _ test consequent (some alternate) =>
    test.uses strict ++ (consequent.uses strict ++ alternate.uses strict)
  | .switch _ discriminant clauses => discriminant.uses strict ++ clauseUses strict clauses
  | .throw _ e => e.uses strict
  | .tryCatch _ b none none => b.uses strict
  | .tryCatch _ b none (some f) => b.uses strict ++ f.uses strict
  | .tryCatch _ b (some h) none => b.uses strict ++ h.uses strict
  | .tryCatch _ b (some h) (some f) => b.uses strict ++ (h.uses strict ++ f.uses strict)
  | .while _ test body => test.uses strict ++ body.uses strict
  | .doWhile _ test body => test.uses strict ++ body.uses strict
  | .for _ init test update body =>
    init.uses strict ++ (optionUses strict test ++ (optionUses strict update ++ body.uses strict))
  | .forIn _ left right body => left.uses strict ++ (right.uses strict ++ body.uses strict)
  | .with _ _ object body => [⟨strict, .withObject⟩] ++ (object.uses strict ++ body.uses strict)
  | .declaration _ ds => declaratorUses strict ds
  | .function f => f.uses strict

end

/-- The places of a script that is strict by its directive, or taken as strict. -/
def Program.uses (strict : Bool) (p : Program) : List UseSite :=
  stmtUses (p.strict || strict) p.body

/-- What the strict code of a script does wrong, in the order in which resolution comes to it. -/
def Program.violations (strict : Bool) (p : Program) : List StaticError :=
  ScriptEngine.violations (p.uses strict)

end ScriptEngine
