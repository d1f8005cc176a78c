import ScriptEngine.Code.Basic

/-!
# Constants of code

Code may have any value as a constant.  Code of scripts has no object among its constants, so all
objects that it can get hold of come from the machine.

## Main definitions

* `Code.Primitive`, `StatementCode.Primitive`, `FunctionCode.Primitive` : no constant is an object.
-/

namespace ScriptEngine

mutual

/-- No constant of the code is an object, the functions inside included. -/
def Code.Primitive {ρ : Rep} : Code ρ → Prop
  | .constant x => (ρ.box x).isObject = false
  | .regularExpression .. => True
  | .this => True
  | .callee => True
  | .array elements => listPrimitive elements
  | .object properties => propertiesPrimitive properties
  | .function f => f.Primitive
  | .slot .. => True
  | .storeSlot _ _ value => value.Primitive
  | .stepSlot .. => True
  | .load place _ => place.Primitive
  | .store place value => place.Primitive ∧ value.Primitive
  | .combine place _ value => place.Primitive ∧ value.Primitive
  | .step place _ _ => place.Primitive
  | .delete place => place.Primitive
  | .unary _ operand => operand.Primitive
  | .binary _ left right => left.Primitive ∧ right.Primitive
  | .logical _ _ left right => left.Primitive ∧ right.Primitive
  | .conditional test consequent alternate =>
    test.Primitive ∧ consequent.Primitive ∧ alternate.Primitive
  | .sequence first rest => first.Primitive ∧ rest.Primitive
  | .callPlace function arguments => function.Primitive ∧ listPrimitive arguments
  | .call function arguments => function.Primitive ∧ listPrimitive arguments
  | .construct function arguments => function.Primitive ∧ listPrimitive arguments

/-- No constant of several pieces of code is an object. -/
def listPrimitive : List (Code .boxed) → Prop
  | [] => True
  | c :: rest => c.Primitive ∧ listPrimitive rest

/-- No constant of the properties of an object literal is an object. -/
def propertiesPrimitive : List PropertyCode → Prop
  | [] => True
  | .mk _ value :: rest => value.Primitive ∧ propertiesPrimitive rest

/-- No constant of a reference is an object. -/
def Reference.Primitive : Reference → Prop
  | .name _ => True
  | .member object key => object.Primitive ∧ key.Primitive

/-- No constant of a statement is an object. -/
def StatementCode.Primitive : StatementCode → Prop
  | .block statements => statementsPrimitive statements
  | .effect code => code.Primitive
  | .complete code => code.Primitive
  | .ret code => code.Primitive
  | .brk _ => True
  | .cont _ => True
  | .labeled _ body => body.Primitive
  | .branch test consequent alternate => test.Primitive ∧ consequent.Primitive ∧ alternate.Primitive
  | .switch _ _ discriminant clauses => discriminant.Primitive ∧ clausesPrimitive clauses
  | .throw code => code.Primitive
  | .tryCatch body _ handler => body.Primitive ∧ handler.Primitive
  | .tryFinally body finalizer => body.Primitive ∧ finalizer.Primitive
  | .loop _ test update body => test.Primitive ∧ update.Primitive ∧ body.Primitive
  | .repeat _ body test => body.Primitive ∧ test.Primitive
  | .forIn _ place object body => place.Primitive ∧ object.Primitive ∧ body.Primitive

/-- No constant of several statements is an object. -/
def statementsPrimitive : List StatementCode → Prop
  | [] => True
  | s :: rest => s.Primitive ∧ statementsPrimitive rest

/-- No constant of the clauses of a `switch` is an object. -/
def clausesPrimitive : List ClauseCode → Prop
  | [] => True
  | .case test body :: rest => test.Primitive ∧ body.Primitive ∧ clausesPrimitive rest
  | .otherwise body :: rest => body.Primitive ∧ clausesPrimitive rest

/-- No constant of a body is an object. -/
def FunctionCode.Primitive : FunctionCode → Prop
  | .mk _ entry body => entry.Primitive ∧ body.Primitive

end

/-- No constant of code in some representation is an object. -/
def TypedCode.Primitive (c : TypedCode) : Prop :=
  c.code.Primitive

theorem statementsPrimitive_append {l l' : List StatementCode} (h : statementsPrimitive l)
    (h' : statementsPrimitive l') : statementsPrimitive (l ++ l') := by
  induction l with
  | nil => exact h'
  | cons s rest ih =>
    obtain ⟨hs, hrest⟩ := h
    exact ⟨hs, ih hrest⟩

end ScriptEngine
