import ScriptEngine.Grammar.Tree

/-!
# Positions in parse trees

An expression in a parse tree is built by what its position asks for, and each position has phrases
of its own.  Keywords stand at fixed places among the parts of a phrase and are passed over.

## Main definitions

* `Position` : the positions of expressions.
* `Position.admits` : the trees that can stand at a position.
* `Tree.hasKeywords` : the keywords of a phrase and of its clauses are at their places.
-/

namespace ScriptEngine

/-- The phrases of operands with infix operators between them, from the loosest on. -/
def Phrase.infixes : List Phrase :=
  [.logicalOrExpression, .logicalAndExpression, .bitwiseOrExpression, .bitwiseXorExpression,
   .bitwiseAndExpression, .equalityExpression, .relationalExpression, .shiftExpression,
   .additiveExpression, .multiplicativeExpression]

/-- The positions that an expression has in a parse tree. -/
inductive Position where
  /-- In parentheses, in brackets or in a statement. -/
  | expression
  /-- Between commas, and as the value of an assignment or a branch of a conditional. -/
  | assignment
  /-- An assignment without an operator. -/
  | conditional
  /-- Next to infix operators, and before the branches of a conditional. -/
  | operand
  /-- After a prefix operator. -/
  | unary
  /-- A unary expression without an operator. -/
  | postfixed
  /-- What is assigned to, or what a postfix operator follows. -/
  | leftHand
  /-- What is constructed with arguments. -/
  | member
  /-- What calls and properties follow, and what is constructed without arguments. -/
  | head
  /-- A primary expression itself. -/
  | atom
deriving Repr, DecidableEq

namespace Position

/-- The phrases that can stand at a position. -/
def phrases : Position → List Phrase
  | .expression => [.expression]
  | .assignment => [.assignmentExpression]
  | .conditional => [.conditionalExpression]
  | .operand => .unaryExpression :: Phrase.infixes
  | .unary => [.unaryExpression]
  | .postfixed => [.postfixExpression]
  | .leftHand => [.lhsExpression]
  | .member => [.memberExpression]
  | .head => [.newExpressionWithArguments, .newExpression, .primaryExpression, .memberExpression]
  | .atom => [.arrayLiteral, .objectLiteral, .functionExpression, .parenthesizedExpression]

/-- The trees that can stand at a position.  Tokens are primary expressions only. -/
def admits (position : Position) : Tree → Bool
  | .leaf .. => position == .atom
  | .node phrase .. => position.phrases.contains phrase
  | .finish _ => false

end Position

/-- The keywords at the places that are passed over, for a phrase with the given number of parts. -/
def Phrase.keywords (count : Nat) : Phrase → List (Option Keyword)
  | .functionDeclaration | .functionExpression => [some .function]
  | .newExpressionWithArguments | .newExpression => [some .new]
  | .variableStatement => [some .var]
  | .forInit | .forInBinding => if count == 2 then [some .var] else []
  | .ifStatement => [some .if_, none, none, some .else_]
  | .doWhileStatement => [some .do_, none, some .while_]
  | .whileStatement => [some .while_]
  | .forStatement => [some .for_]
  | .forInStatement => [some .for_, none, some .in_]
  | .continueStatement => [some .continue_]
  | .breakStatement => [some .break_]
  | .returnStatement => [some .return_]
  | .withStatement => [some .with_]
  | .switchStatement => [some .switch]
  | .caseClause => [some .case]
  | .defaultClause => [some .default]
  | .throwStatement => [some .throw_]
  | .tryStatement => [some .try_]
  | .catchClause => [some .catch_]
  | .finallyClause => [some .finally_]
  | _ => []

namespace Tree

/-- Whether a tree is a keyword. -/
def isKeyword (k : Keyword) : Tree → Bool
  | .leaf token .. => token == .keyword k
  | _ => false

/-- Whether the keywords among the parts of a phrase are at their places. -/
def keywordsAt (phrase : Phrase) (children : List Tree) : Bool :=
  ((phrase.keywords children.length).zip children).all fun (k, t) => k.all t.isKeyword

/-- Whether the keywords of a phrase and those of its clauses are at their places. -/
def hasKeywords (phrase : Phrase) (children : List Tree) : Bool :=
  keywordsAt phrase children && children.all fun
    | .node phrase _ children => keywordsAt phrase children
    | _ => true

end Tree

end ScriptEngine
