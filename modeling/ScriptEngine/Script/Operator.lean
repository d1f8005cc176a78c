/-!
# Operators

The operators of expressions.

## Main definitions

* `UnaryOp`, `UpdateOp`, `BinaryOp`, `LogicalOp`, `AssignOp` : the operators.
* `BinaryOp.ofText?`, `UnaryOp.ofText?`, `UpdateOp.ofText?`, `AssignOp.ofText?` : the operator of a
  spelling.
-/

namespace ScriptEngine

/-- Operators with one operand that is only read. -/
inductive UnaryOp where
  | minus | plus | logicalNot | bitwiseNot | typeOf | void | delete
deriving Repr, DecidableEq, Inhabited

/-- Operators that step a variable or a property. -/
inductive UpdateOp where
  | increment | decrement
deriving Repr, DecidableEq, Inhabited

/-- Operators that evaluate both operands. -/
inductive BinaryOp where
  | looselyEqual | looselyUnequal | strictlyEqual | strictlyUnequal
  | lessThan | lessThanEqual | greaterThan | greaterThanEqual
  | leftShift | rightShift | unsignedRightShift
  | add | subtract | multiply | divide | modulo
  | bitwiseOr | bitwiseXor | bitwiseAnd
  | in_ | instanceOf
deriving Repr, DecidableEq, Inhabited

/-- Operators whose right operand is evaluated only if the left one asks for it. -/
inductive LogicalOp where
  | or | and
deriving Repr, DecidableEq, Inhabited

/-- Plain assignment, or assignment of a binary operator's result. -/
inductive AssignOp where
  | plain
  | compound (op : BinaryOp)
deriving Repr, DecidableEq, Inhabited

/-- The amount that an update operator adds. -/
def UpdateOp.step : UpdateOp → Float
  | .increment => 1.0
  | .decrement => -1.0

/-- The update operator of a spelling. -/
def UpdateOp.ofText? (text : List Char) : Option UpdateOp :=
  match String.ofList text with
  | "++" => some .increment
  | "--" => some .decrement
  | _ => none

/-- The unary operator of a spelling. -/
def UnaryOp.ofText? (text : List Char) : Option UnaryOp :=
  match String.ofList text with
  | "delete" => some .delete
  | "void" => some .void
  | "typeof" => some .typeOf
  | "+" => some .plus
  | "-" => some .minus
  | "~" => some .bitwiseNot
  | "!" => some .logicalNot
  | _ => none

/-- The binary operator of a spelling. -/
def BinaryOp.ofText? (text : List Char) : Option BinaryOp :=
  match String.ofList text with
  | "*" => some .multiply
  | "/" => some .divide
  | "%" => some .modulo
  | "+" => some .add
  | "-" => some .subtract
  | "<<" => some .leftShift
  | ">>" => some .rightShift
  | ">>>" => some .unsignedRightShift
  | "<" => some .lessThan
  | "<=" => some .lessThanEqual
  | ">" => some .greaterThan
  | ">=" => some .greaterThanEqual
  | "instanceof" => some .instanceOf
  | "in" => some .in_
  | "==" => some .looselyEqual
  | "!=" => some .looselyUnequal
  | "===" => some .strictlyEqual
  | "!==" => some .strictlyUnequal
  | "&" => some .bitwiseAnd
  | "^" => some .bitwiseXor
  | "|" => some .bitwiseOr
  | _ => none

/-- The assignment operator of a spelling: `=`, or a binary operator before `=`. -/
def AssignOp.ofText? (text : List Char) : Option AssignOp :=
  match String.ofList text with
  | "=" => some .plain
  | "+=" => some (.compound .add)
  | "-=" => some (.compound .subtract)
  | "*=" => some (.compound .multiply)
  | "/=" => some (.compound .divide)
  | "%=" => some (.compound .modulo)
  | "<<=" => some (.compound .leftShift)
  | ">>=" => some (.compound .rightShift)
  | ">>>=" => some (.compound .unsignedRightShift)
  | "|=" => some (.compound .bitwiseOr)
  | "^=" => some (.compound .bitwiseXor)
  | "&=" => some (.compound .bitwiseAnd)
  | _ => none

end ScriptEngine
