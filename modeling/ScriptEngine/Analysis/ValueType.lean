import ScriptEngine.Script.Ast

/-!
# Static value types

What is known before a script runs about the values of a variable or an expression.  Nothing is
known yet at the bottom, anything may happen at the top, and the concrete types lie in between.

## Main definitions

* `ValueType` : the static types.
* `ValueType.merge` : the least upper bound.
* `ValueType.join` : the type of a value that comes from one of two expressions.
* `Literal.valueType`, `BinaryOp.resultType`, `UnaryOp.resultType` : the types of expressions.
-/

namespace ScriptEngine

/-- Static types of values. -/
inductive ValueType where
  | unset | unknown | boolean | string | double | object
deriving Repr, DecidableEq, Inhabited

namespace ValueType

/-- The least upper bound of two types. -/
def merge : ValueType → ValueType → ValueType
  | .unset, t => t
  | t, .unset => t
  | a, b => if a = b then a else .unknown

/-- The type that a read sees: a variable that was never written may hold `undefined`. -/
def orUnknown : ValueType → ValueType
  | .unset => .unknown
  | t => t

/-- The type of a value that comes from one of two expressions. -/
def join (a b : ValueType) : ValueType :=
  if a = b then a else .unknown

/-- The types whose values become numbers without running a script or reading text. -/
def isNumeric : ValueType → Bool
  | .double | .boolean => true
  | _ => false

end ValueType

/-- The type of a literal. -/
def Literal.valueType : Literal → ValueType
  | .null => .unknown
  | .boolean _ => .boolean
  | .string _ => .string
  | .number _ => .double
  | .regularExpression .. => .object

/-- The type of a binary operator's result, given the types of its operands. -/
def BinaryOp.resultType (op : BinaryOp) (left right : ValueType) : ValueType :=
  match op with
  | .add =>
    if left = .string || right = .string then .string
    else if left.isNumeric && right.isNumeric then .double
    else .unknown
  | .subtract | .multiply | .divide | .modulo | .leftShift | .rightShift | .unsignedRightShift
  | .bitwiseOr | .bitwiseXor | .bitwiseAnd => .double
  | .looselyEqual | .looselyUnequal | .strictlyEqual | .strictlyUnequal | .lessThan
  | .lessThanEqual | .greaterThan | .greaterThanEqual | .in_ | .instanceOf => .boolean

/-- The type of a unary operator's result. -/
def UnaryOp.resultType : UnaryOp → ValueType
  | .minus | .plus | .bitwiseNot => .double
  | .logicalNot | .delete => .boolean
  | .typeOf => .string
  | .void => .unknown

end ScriptEngine
