import ScriptEngine.Code.Representation
import ScriptEngine.Number.Word

/-!
# Operations on results

The families of binary operators, and the forms that an operator takes for operands in given
representations.

## Main definitions

* `NumericOp`, `Relation`, `Equality` : the operators on numbers, the order and the equality
  operators.
* `BinaryOp.family` : the family of a binary operator.
* `UnaryForm`, `BinaryForm` : operators on results in given representations.
-/

namespace ScriptEngine

/-- Operators that turn two numbers into one. -/
inductive NumericOp where
  | add | subtract | multiply | divide | modulo
  | leftShift | rightShift | unsignedRightShift
  | bitOr | bitXor | bitAnd
deriving Repr, DecidableEq, Inhabited

/-- The result of a numeric operator. -/
def NumericOp.apply : NumericOp → Float → Float → Float
  | .add, x, y => x + y
  | .subtract, x, y => x - y
  | .multiply, x, y => x * y
  | .divide, x, y => x / y
  | .modulo, x, y => remainder x y
  | .leftShift, x, y => ScriptEngine.leftShift x y
  | .rightShift, x, y => ScriptEngine.rightShift x y
  | .unsignedRightShift, x, y => ScriptEngine.unsignedRightShift x y
  | .bitOr, x, y => ScriptEngine.bitOr x y
  | .bitXor, x, y => ScriptEngine.bitXor x y
  | .bitAnd, x, y => ScriptEngine.bitAnd x y

/-- Operators that compare by order. -/
inductive Relation where
  | lessThan | lessThanEqual | greaterThan | greaterThanEqual
deriving Repr, DecidableEq, Inhabited

namespace Relation

/-- Whether the right operand is asked to be the lesser one. -/
def isSwapped : Relation → Bool
  | .greaterThan | .lessThanEqual => true
  | .lessThan | .greaterThanEqual => false

/-- The answer to "is it less" that makes the relation hold. -/
def expected : Relation → Bool
  | .lessThan | .greaterThan => true
  | .lessThanEqual | .greaterThanEqual => false

/-- Whether two numbers are in a relation. -/
def numbers (r : Relation) (x y : Float) : Bool :=
  (if r.isSwapped then numberLessThan y x else numberLessThan x y) == some r.expected

/-- Whether two strings are in a relation. -/
def strings (r : Relation) (s t : String) : Bool :=
  match r, Text.compare16 s t with
  | .lessThan, order => order.isLT
  | .greaterThan, order => order.isGT
  | .lessThanEqual, order => order.isLE
  | .greaterThanEqual, order => order.isGE

end Relation

/-- Operators that compare for equality. -/
structure Equality where
  /-- Whether values of different types are never equal. -/
  strict : Bool
  negated : Bool
deriving Repr, DecidableEq, Inhabited

/-- What a binary operator does with its operands. -/
inductive OperatorFamily where
  /-- Concatenates strings and adds anything else. -/
  | sum
  | numeric (op : NumericOp)
  | relation (r : Relation)
  | equality (e : Equality)
  | membership
  | instanceOf
deriving Repr, DecidableEq, Inhabited

/-- The family of a binary operator. -/
def BinaryOp.family : BinaryOp → OperatorFamily
  | .add => .sum
  | .subtract => .numeric .subtract
  | .multiply => .numeric .multiply
  | .divide => .numeric .divide
  | .modulo => .numeric .modulo
  | .leftShift => .numeric .leftShift
  | .rightShift => .numeric .rightShift
  | .unsignedRightShift => .numeric .unsignedRightShift
  | .bitwiseOr => .numeric .bitOr
  | .bitwiseXor => .numeric .bitXor
  | .bitwiseAnd => .numeric .bitAnd
  | .lessThan => .relation .lessThan
  | .lessThanEqual => .relation .lessThanEqual
  | .greaterThan => .relation .greaterThan
  | .greaterThanEqual => .relation .greaterThanEqual
  | .looselyEqual => .equality ⟨false, false⟩
  | .looselyUnequal => .equality ⟨false, true⟩
  | .strictlyEqual => .equality ⟨true, false⟩
  | .strictlyUnequal => .equality ⟨true, true⟩
  | .in_ => .membership
  | .instanceOf => .instanceOf

/-- Operators on one result. -/
inductive UnaryForm : Rep → Rep → Type where
  /-- The conversion to another representation, which may run a script. -/
  | convert (ρ σ : Rep) : UnaryForm ρ σ
  | negate : UnaryForm .double .double
  | complement : UnaryForm .double .double
  | not : UnaryForm .boolean .boolean
  | typeOf (ρ : Rep) : UnaryForm ρ .string
  /-- The object of a value. -/
  | object : UnaryForm .boxed .boxed
  /-- Drops the result. -/
  | void (ρ : Rep) : UnaryForm ρ .boxed
  /-- The operator on any value. -/
  | dynamic (op : UnaryOp) : UnaryForm .boxed .boxed

/-- Operators on two results. -/
inductive BinaryForm : Rep → Rep → Rep → Type where
  | numbers (op : NumericOp) : BinaryForm .double .double .double
  /-- Both operands become numbers, the left one first. -/
  | numeric (op : NumericOp) : BinaryForm .boxed .boxed .double
  | compareNumbers (r : Relation) : BinaryForm .double .double .boolean
  | compareStrings (r : Relation) : BinaryForm .string .string .boolean
  | compare (r : Relation) : BinaryForm .boxed .boxed .boolean
  | equalNumbers (negated : Bool) : BinaryForm .double .double .boolean
  | equalBooleans (negated : Bool) : BinaryForm .boolean .boolean .boolean
  | equalStrings (negated : Bool) : BinaryForm .string .string .boolean
  | equal (e : Equality) : BinaryForm .boxed .boxed .boolean
  | concatenate : BinaryForm .string .string .string
  /-- Both operands become primitive, the left one first, and then strings. -/
  | concatenateValues : BinaryForm .boxed .boxed .string
  | membership : BinaryForm .boxed .boxed .boolean
  | instanceOf : BinaryForm .boxed .boxed .boolean
  /-- The operator on any values. -/
  | dynamic (op : BinaryOp) : BinaryForm .boxed .boxed .boxed

end ScriptEngine
