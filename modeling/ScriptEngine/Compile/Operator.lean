import ScriptEngine.Code.Basic

/-!
# Choice of operators

The form of an operator is chosen by the representations of its operands: operands whose types are
known are worked on as they are, and all others as values.

## Main definitions

* `Code.convert`, `TypedCode.inRep` : code in another representation.
* `specializeBinary`, `specializeUnary` : the form of an operator.
* `logicalCode`, `conditionalCode` : code that yields the result of one of two pieces of code.
-/

namespace ScriptEngine

/-- Code in another representation; none is added where it is the same. -/
def Code.convert {ρ : Rep} (c : Code ρ) (σ : Rep) : Code σ :=
  if h : ρ = σ then h ▸ c else .unary (.convert ρ σ) c

namespace TypedCode

/-- Code in a given representation. -/
def inRep (c : TypedCode) (ρ : Rep) : Code ρ :=
  c.code.convert ρ

/-- Code in the representation of a static type. -/
def toType (c : TypedCode) (t : ValueType) : TypedCode :=
  ⟨.ofValueType t, c.inRep (.ofValueType t)⟩

/-- Code that yields a value. -/
def constant : Value → TypedCode
  | .number x => ⟨.double, .constant x⟩
  | .boolean b => ⟨.boolean, .constant b⟩
  | .string s => ⟨.string, .constant s⟩
  | v => ⟨.boxed, .constant v⟩

end TypedCode

/-! ### Operators -/

/-- The operator `+`: it adds what can only be numbers, concatenates where one operand can only be a
string, and is left open otherwise. -/
def sumCode (l r : TypedCode) : TypedCode :=
  match l.rep, r.rep with
  | .double, .double | .double, .boolean | .boolean, .double | .boolean, .boolean =>
    ⟨.double, .binary (.numbers .add) (l.inRep .double) (r.inRep .double)⟩
  | .string, .boxed | .boxed, .string =>
    ⟨.string, .binary .concatenateValues (l.inRep .boxed) (r.inRep .boxed)⟩
  | .string, _ | _, .string =>
    ⟨.string, .binary .concatenate (l.inRep .string) (r.inRep .string)⟩
  | _, _ => ⟨.boxed, .binary (.dynamic .add) (l.inRep .boxed) (r.inRep .boxed)⟩

/-- A numeric operator.  Operands that are known to be primitive become numbers as they are
evaluated; otherwise both are evaluated before the first one becomes a number. -/
def numericCode (op : NumericOp) (l r : TypedCode) : TypedCode :=
  if l.rep = .boxed || r.rep = .boxed then
    ⟨.double, .binary (.numeric op) (l.inRep .boxed) (r.inRep .boxed)⟩
  else ⟨.double, .binary (.numbers op) (l.inRep .double) (r.inRep .double)⟩

/-- An order operator. -/
def relationCode (rel : Relation) (l r : TypedCode) : TypedCode :=
  match l.rep, r.rep with
  | .double, .double =>
    ⟨.boolean, .binary (.compareNumbers rel) (l.inRep .double) (r.inRep .double)⟩
  | .string, .string =>
    ⟨.boolean, .binary (.compareStrings rel) (l.inRep .string) (r.inRep .string)⟩
  | _, _ => ⟨.boolean, .binary (.compare rel) (l.inRep .boxed) (r.inRep .boxed)⟩

/-- An equality operator.  Between operands of one known type the two equalities agree. -/
def equalityCode (e : Equality) (l r : TypedCode) : TypedCode :=
  match l.rep, r.rep with
  | .double, .double =>
    ⟨.boolean, .binary (.equalNumbers e.negated) (l.inRep .double) (r.inRep .double)⟩
  | .boolean, .boolean =>
    ⟨.boolean, .binary (.equalBooleans e.negated) (l.inRep .boolean) (r.inRep .boolean)⟩
  | .string, .string =>
    ⟨.boolean, .binary (.equalStrings e.negated) (l.inRep .string) (r.inRep .string)⟩
  | _, _ => ⟨.boolean, .binary (.equal e) (l.inRep .boxed) (r.inRep .boxed)⟩

/-- A binary operator for operands in given representations. -/
def specializeBinary (op : BinaryOp) (l r : TypedCode) : TypedCode :=
  match op.family with
  | .sum => sumCode l r
  | .numeric op => numericCode op l r
  | .relation rel => relationCode rel l r
  | .equality e => equalityCode e l r
  | .membership => ⟨.boolean, .binary .membership (l.inRep .boxed) (r.inRep .boxed)⟩
  | .instanceOf => ⟨.boolean, .binary .instanceOf (l.inRep .boxed) (r.inRep .boxed)⟩

/-- A unary operator for an operand in a given representation. -/
def specializeUnary (op : UnaryOp) (c : TypedCode) : TypedCode :=
  match op with
  | .minus => ⟨.double, .unary .negate (c.inRep .double)⟩
  | .plus => ⟨.double, c.inRep .double⟩
  | .bitwiseNot => ⟨.double, .unary .complement (c.inRep .double)⟩
  | .logicalNot => ⟨.boolean, .unary .not (c.inRep .boolean)⟩
  | .typeOf => ⟨.string, .unary (.typeOf c.rep) c.code⟩
  | .void => ⟨.boxed, .unary (.void c.rep) c.code⟩
  | .delete => ⟨.boxed, .unary (.dynamic .delete) (c.inRep .boxed)⟩

/-! ### One of two -/

/-- The representation of what comes from one of two pieces of code. -/
def commonRep (l r : TypedCode) : Rep :=
  if l.rep = r.rep then l.rep else .boxed

/-- A logical operator. -/
def logicalCode (op : LogicalOp) (l r : TypedCode) : TypedCode :=
  let ρ := commonRep l r
  ⟨ρ, .logical ρ op (l.inRep ρ) (r.inRep ρ)⟩

/-- A conditional expression. -/
def conditionalCode (test : Code .boolean) (consequent alternate : TypedCode) : TypedCode :=
  let ρ := commonRep consequent alternate
  ⟨ρ, .conditional test (consequent.inRep ρ) (alternate.inRep ρ)⟩

end ScriptEngine
