import ScriptEngine.Proofs.Script.Numbering

/-!
# Functions and strictness

All functions of a script, and where a script says that they are strict: code that stands in strict
code is strict itself.

## Main definitions

* `Expr.funcs`, `Stmt.funcs`, `Program.funcs` : all functions, at any depth.
* `Func.Inherit` : functions that may stand in strict code, and what they pass on to those inside
  them.
* `Build.Yields` : what holds of all results of a computation.

## Main statements

* `stmtFuncs_ids` : the ids in an outline are those of the functions.
-/

namespace ScriptEngine

/-! ### All functions -/

mutual

/-- The functions in an expression, each with those inside it. -/
def Expr.funcs : Expr → List Func
  | .literal .. | .this _ | .identifier _ => []
  | .array _ elements => elementFuncs elements
  | .object _ properties => propertyFuncs properties
  | .function f => f :: f.inside
  | .unary _ _ argument => argument.funcs
  | .update _ _ t _ => t.funcs
  | .binary _ _ left right => left.funcs ++ right.funcs
  | .logical _ _ left right => left.funcs ++ right.funcs
  | .assign _ _ t value => t.funcs ++ value.funcs
  | .conditional _ test consequent alternate => test.funcs ++ (consequent.funcs ++ alternate.funcs)
  | .call _ callee arguments => callee.funcs ++ exprFuncs arguments
  | .construct _ callee arguments => callee.funcs ++ exprFuncs arguments
  | .sequence _ expressions => exprFuncs expressions
  | .member m => m.funcs

/-- The functions in several expressions. -/
def exprFuncs : List Expr → List Func
  | [] => []
  | e :: rest => e.funcs ++ exprFuncs rest

/-- The functions in an expression that may be left out. -/
def optionFuncs : Option Expr → List Func
  | none => []
  | some e => e.funcs

/-- The functions in the elements of an array. -/
def elementFuncs : List (Option Expr) → List Func
  | [] => []
  | none :: rest => elementFuncs rest
  | some e :: rest => e.funcs ++ elementFuncs rest

/-- The functions in the properties of an object. -/
def propertyFuncs : List Property → List Func
  | [] => []
  | .mk _ _ value :: rest => value.funcs ++ propertyFuncs rest

/-- The functions in a property reference. -/
def Member.funcs : Member → List Func
  | .named _ object _ => object.funcs
  | .computed _ object property => object.funcs ++ property.funcs

/-- The functions in what is assigned to. -/
def Target.funcs : Target → List Func
  | .identifier _ => []
  | .member m => m.funcs

/-- The functions inside a function. -/
def Func.inside : Func → List Func
  | .mk _ _ _ _ _ _ _ body => stmtFuncs body

/-- The functions in statements. -/
def stmtFuncs : List Stmt → List Func
  | [] => []
  | s :: rest => s.funcs ++ stmtFuncs rest

/-- The functions in a declaration. -/
def declaratorFuncs : List Declarator → List Func
  | [] => []
  | .mk _ _ none :: rest => declaratorFuncs rest
  | .mk _ _ (some init) :: rest => init.funcs ++ declaratorFuncs rest

/-- The functions in the clauses of a `switch`. -/
def clauseFuncs : List SwitchClause → List Func
  | [] => []
  | .mk _ none body :: rest => stmtFuncs body ++ clauseFuncs rest
  | .mk _ (some test) body :: rest => test.funcs ++ (stmtFuncs body ++ clauseFuncs rest)

/-- The functions in a block. -/
def Block.funcs : Block → List Func
  | .mk _ body => stmtFuncs body

/-- The functions in a `catch` clause. -/
def Handler.funcs : Handler → List Func
  | .mk _ _ body => body.funcs

/-- The functions in what comes first in the head of a `for` loop. -/
def ForInit.funcs : ForInit → List Func
  | .nothing => []
  | .declaration _ ds => declaratorFuncs ds
  | .expression e => e.funcs

/-- The functions in what the keys of a `for`-`in` loop are assigned to. -/
def ForInTarget.funcs : ForInTarget → List Func
  | .declaration _ => []
  | .target t => t.funcs

/-- The functions in a statement, each with those inside it. -/
def Stmt.funcs : Stmt → List Func
  | .expression _ e => e.funcs
  | .block b => b.funcs
  | .empty _ | .debugger _ | .brk .. | .cont .. | .ret _ none => []
  | .ret _ (some e) => e.funcs
  | .labeled _ _ body => body.funcs
  | .conditional _ test consequent none => test.funcs ++ consequent.funcs
  | .conditional _ test consequent (some alternate) =>
    test.funcs ++ (consequent.funcs ++ alternate.funcs)
  | .switch _ discriminant clauses => discriminant.funcs ++ clauseFuncs clauses
  | .throw _ e => e.funcs
  | .tryCatch _ b none none => b.funcs
  | .tryCatch _ b none (some f) => b.funcs ++ f.funcs
  | .tryCatch _ b (some h) none => b.funcs ++ h.funcs
  | .tryCatch _ b (some h) (some f) => b.funcs ++ (h.funcs ++ f.funcs)
  | .while _ test body => test.funcs ++ body.funcs
  | .doWhile _ test body => body.funcs ++ test.funcs
  | .for _ init test update body =>
    init.funcs ++ (optionFuncs test ++ (optionFuncs update ++ body.funcs))
  | .forIn _ left right body => left.funcs ++ (right.funcs ++ body.funcs)
  | .with _ _ object body => object.funcs ++ body.funcs
  | .declaration _ ds => declaratorFuncs ds
  | .function f => f :: f.inside

end

attribute [simp] Expr.funcs exprFuncs optionFuncs elementFuncs propertyFuncs Member.funcs
  Target.funcs
  Func.inside stmtFuncs declaratorFuncs clauseFuncs Block.funcs Handler.funcs ForInit.funcs
  ForInTarget.funcs Stmt.funcs

/-- All functions of a script. -/
def Program.funcs (p : Program) : List Func :=
  stmtFuncs p.body

/-! ### Their ids -/

namespace Mark

@[simp] theorem functionsOf_nil : functionsOf [] = [] :=
  rfl

@[simp] theorem functionsOf_node (id : NodeId) (ms : List Mark) :
    functionsOf (.node id :: ms) = functionsOf ms :=
  rfl

@[simp] theorem functionsOf_params (is : List Identifier) :
    functionsOf (is.map Identifier.mark) = [] := by
  induction is with
  | nil => rfl
  | cons i is ih => exact ih

end Mark

open Mark

mutual

theorem Expr.functionsOf_marks : ∀ e : Expr, functionsOf e.marks = e.funcs.map Func.id
  | .literal .. | .this _ => rfl
  | .identifier i => rfl
  | .array _ elements => elementFuncs_ids elements
  | .object _ properties => propertyFuncs_ids properties
  | .function f => f.functionsOf_mark
  | .unary _ _ argument => argument.functionsOf_marks
  | .update _ _ t _ => t.functionsOf_marks
  | .binary _ _ left right => by simp [left.functionsOf_marks, right.functionsOf_marks]
  | .logical _ _ left right => by simp [left.functionsOf_marks, right.functionsOf_marks]
  | .assign _ _ t value => by simp [t.functionsOf_marks, value.functionsOf_marks]
  | .conditional _ test consequent alternate => by
    simp [test.functionsOf_marks, consequent.functionsOf_marks, alternate.functionsOf_marks]
  | .call _ callee arguments => by simp [callee.functionsOf_marks, exprFuncs_ids arguments]
  | .construct _ callee arguments => by simp [callee.functionsOf_marks, exprFuncs_ids arguments]
  | .sequence _ expressions => exprFuncs_ids expressions
  | .member m => m.functionsOf_marks

theorem exprFuncs_ids : ∀ es : List Expr, functionsOf (exprMarks es) = (exprFuncs es).map Func.id
  | [] => rfl
  | e :: rest => by simp [e.functionsOf_marks, exprFuncs_ids rest]

theorem optionFuncs_ids :
    ∀ e : Option Expr, functionsOf (optionMarks e) = (optionFuncs e).map Func.id
  | none => rfl
  | some e => e.functionsOf_marks

theorem elementFuncs_ids : ∀ es : List (Option Expr),
    functionsOf (elementMarks es) = (elementFuncs es).map Func.id
  | [] => rfl
  | none :: rest => elementFuncs_ids rest
  | some e :: rest => by simp [e.functionsOf_marks, elementFuncs_ids rest]

theorem propertyFuncs_ids : ∀ ps : List Property,
    functionsOf (propertyMarks ps) = (propertyFuncs ps).map Func.id
  | [] => rfl
  | .mk _ _ value :: rest => by simp [value.functionsOf_marks, propertyFuncs_ids rest]

theorem Member.functionsOf_marks : ∀ m : Member, functionsOf m.marks = m.funcs.map Func.id
  | .named _ object _ => object.functionsOf_marks
  | .computed _ object property => by simp [object.functionsOf_marks, property.functionsOf_marks]

theorem Target.functionsOf_marks : ∀ t : Target, functionsOf t.marks = t.funcs.map Func.id
  | .identifier _ => rfl
  | .member m => m.functionsOf_marks

theorem Func.functionsOf_mark : ∀ f : Func, functionsOf [f.mark] = (f :: f.inside).map Func.id
  | .mk _ id none params _ _ _ body => by
    simp [functionsOf, functions, stmtFuncs_ids body, Func.id]
  | .mk _ id (some name) params _ _ _ body => by
    simp [functionsOf, functions, Identifier.mark, stmtFuncs_ids body, Func.id]

theorem stmtFuncs_ids : ∀ ss : List Stmt, functionsOf (stmtMarks ss) = (stmtFuncs ss).map Func.id
  | [] => rfl
  | s :: rest => by simp [s.functionsOf_marks, stmtFuncs_ids rest]

theorem declaratorFuncs_ids : ∀ ds : List Declarator,
    functionsOf (declaratorMarks ds) = (declaratorFuncs ds).map Func.id
  | [] => rfl
  | .mk _ name none :: rest => declaratorFuncs_ids rest
  | .mk _ name (some init) :: rest => by
    simp [Identifier.mark, init.functionsOf_marks, declaratorFuncs_ids rest]

theorem clauseFuncs_ids : ∀ cs : List SwitchClause,
    functionsOf (clauseMarks cs) = (clauseFuncs cs).map Func.id
  | [] => rfl
  | .mk _ none body :: rest => by simp [stmtFuncs_ids body, clauseFuncs_ids rest]
  | .mk _ (some test) body :: rest => by
    simp [test.functionsOf_marks, stmtFuncs_ids body, clauseFuncs_ids rest]

theorem Block.functionsOf_marks : ∀ b : Block, functionsOf b.marks = b.funcs.map Func.id
  | .mk _ body => stmtFuncs_ids body

theorem Handler.functionsOf_marks : ∀ h : Handler, functionsOf h.marks = h.funcs.map Func.id
  | .mk _ _ body => body.functionsOf_marks

theorem ForInit.functionsOf_marks :
    ∀ init : ForInit, functionsOf init.marks = init.funcs.map Func.id
  | .nothing => rfl
  | .declaration _ ds => declaratorFuncs_ids ds
  | .expression e => e.functionsOf_marks

theorem ForInTarget.functionsOf_marks : ∀ left : ForInTarget,
    functionsOf left.marks = left.funcs.map Func.id
  | .declaration _ => rfl
  | .target t => t.functionsOf_marks

theorem Stmt.functionsOf_marks : ∀ s : Stmt, functionsOf s.marks = s.funcs.map Func.id
  | .expression _ e => e.functionsOf_marks
  | .block b => b.functionsOf_marks
  | .empty _ | .debugger _ | .brk .. | .cont .. | .ret _ none => rfl
  | .ret _ (some e) => e.functionsOf_marks
  | .labeled _ _ body => body.functionsOf_marks
  | .conditional _ test consequent none => by
    simp [test.functionsOf_marks, consequent.functionsOf_marks]
  | .conditional _ test consequent (some alternate) => by
    simp [test.functionsOf_marks, consequent.functionsOf_marks, alternate.functionsOf_marks]
  | .switch _ discriminant clauses => by
    simp [discriminant.functionsOf_marks, clauseFuncs_ids clauses]
  | .throw _ e => e.functionsOf_marks
  | .tryCatch _ b none none => by simp [b.functionsOf_marks]
  | .tryCatch _ b none (some f) => by simp [b.functionsOf_marks, f.functionsOf_marks]
  | .tryCatch _ b (some h) none => by simp [b.functionsOf_marks, h.functionsOf_marks]
  | .tryCatch _ b (some h) (some f) => by
    simp [b.functionsOf_marks, h.functionsOf_marks, f.functionsOf_marks]
  | .while _ test body => by simp [test.functionsOf_marks, body.functionsOf_marks]
  | .doWhile _ test body => by simp [test.functionsOf_marks, body.functionsOf_marks]
  | .for _ init test update body => by
    simp [init.functionsOf_marks, optionFuncs_ids test, optionFuncs_ids update,
      body.functionsOf_marks]
  | .forIn _ left right body => by
    simp [left.functionsOf_marks, right.functionsOf_marks, body.functionsOf_marks]
  | .with _ _ object body => by simp [object.functionsOf_marks, body.functionsOf_marks]
  | .declaration _ ds => declaratorFuncs_ids ds
  | .function f => f.functionsOf_mark

end

/-! ### Strictness is passed on -/

/-- Functions that may stand in code that is strict or not: they are strict if it is, and so are
those inside of a strict one. -/
def Func.Inherit (strict : Bool) (fs : List Func) : Prop :=
  ∀ f ∈ fs, (strict = true → f.strict = true) ∧ ∀ g ∈ f.inside, f.strict = true → g.strict = true

namespace Func.Inherit

variable {strict : Bool} {f : Func} {fs fs' : List Func}

@[simp] theorem nil : Func.Inherit strict [] :=
  List.forall_mem_nil _

@[simp] theorem append : Func.Inherit strict (fs ++ fs') ↔
    Func.Inherit strict fs ∧ Func.Inherit strict fs' :=
  List.forall_mem_append

/-- A function passes on its own strictness. -/
theorem function (h : strict = true → f.strict = true) (hinside : Func.Inherit f.strict f.inside) :
    Func.Inherit strict (f :: f.inside) := by
  refine List.forall_mem_cons.mpr ⟨⟨h, fun g hg => (hinside g hg).1⟩,
    fun g hg => ⟨fun hs => ?_, ?_⟩⟩
  · exact (hinside g hg).1 (h hs)
  · exact (hinside g hg).2

end Func.Inherit

namespace Build

/-- All results of a computation have a property. -/
def Yields {α : Type} (x : Build α) (P : α → Prop) : Prop :=
  ∀ ⦃c a c'⦄, x c = .ok (a, c') → P a

namespace Yields

variable {α β : Type} {x : Build α} {P : α → Prop}

theorem bind {f : α → Build β} {R : β → Prop} (hx : Yields x P) (hf : ∀ a, P a → Yields (f a) R) :
    Yields (x >>= f) R := by
  intro c b c'' h
  obtain ⟨a, c', ha, hb⟩ := bind_eq_ok h
  exact hf a (hx ha) hb

/-- A step whose result does not matter. -/
theorem step {f : α → Build β} {R : β → Prop} (hf : ∀ a, Yields (f a) R) : Yields (x >>= f) R :=
  bind (P := fun _ => True) (fun _ _ _ _ => trivial) fun a _ => hf a

theorem pure {a : α} (h : P a) : Yields (Pure.pure a) P := by
  intro c a' c' hx
  cases hx
  exact h

theorem throw (e : BuildError) : Yields (MonadExcept.throw e : Build α) P := by
  intro c a c' h
  cases h

theorem map {f : α → β} {R : β → Prop} (h : Yields x P) (hf : ∀ a, P a → R (f a)) :
    Yields (f <$> x) R := by
  rw [map_eq_pure_bind]
  exact h.bind fun a ha => .pure (hf a ha)

theorem guarded {b : Bool} (h : Yields x P) (span : Span) :
    Yields (if b then x else Build.malformed span) P :=
  fun _ _ _ hx => h (ok_of_guarded hx)

end Yields

end Build

end ScriptEngine
