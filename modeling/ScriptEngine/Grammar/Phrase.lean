import ScriptEngine.Grammar.Token

/-!
# Phrases

The phrases of the language and the pattern that defines each of them.  Patterns are those of a
parsing expression grammar: a choice takes its first alternative that matches, and a repetition is
never given back.  Between the parts of a sequence and between repetitions, blanks and comments are
skipped.

## Main definitions

* `Phrase` : the phrases.
* `Pattern` : parsing expressions over tokens and phrases.
* `Phrase.pattern` : the definition of each phrase.
-/

namespace ScriptEngine

/-- The phrases of the language. -/
inductive Phrase where
  | script
  | functionDeclaration
  | block
  | variableStatement
  | variableDeclarationList
  | variableDeclaration
  | emptyStatement
  | expressionStatement
  | ifStatement
  | doWhileStatement
  | whileStatement
  | forStatement
  | forInit
  | forTest
  | forUpdate
  | forInStatement
  | forInBinding
  | continueStatement
  | breakStatement
  | returnStatement
  | withStatement
  | switchStatement
  | caseClause
  | defaultClause
  | throwStatement
  | tryStatement
  | catchClause
  | finallyClause
  | debuggerStatement
  | labelledStatement
  | primaryExpression
  | parenthesizedExpression
  | arrayLiteral
  | arrayElement
  | objectLiteral
  | propertyAssignment
  | functionExpression
  | formalParameterList
  | functionBody
  | lhsExpression
  | newExpressionWithArguments
  | newExpression
  | memberExpression
  | dotMember
  | computedMember
  | arguments
  | postfixExpression
  | unaryExpression
  | multiplicativeExpression
  | additiveExpression
  | shiftExpression
  | relationalExpression
  | equalityExpression
  | bitwiseAndExpression
  | bitwiseXorExpression
  | bitwiseOrExpression
  | logicalAndExpression
  | logicalOrExpression
  | conditionalExpression
  | assignmentExpression
  | expression
deriving Repr, DecidableEq

/-- The name of a phrase in a rendered parse tree. -/
def Phrase.label : Phrase → String
  | .script => "script"
  | .functionDeclaration => "function_declaration"
  | .block => "block"
  | .variableStatement => "variable_statement"
  | .variableDeclarationList => "variable_declaration_list"
  | .variableDeclaration => "variable_declaration"
  | .emptyStatement => "empty_statement"
  | .expressionStatement => "expression_statement"
  | .ifStatement => "if_statement"
  | .doWhileStatement => "do_while_statement"
  | .whileStatement => "while_statement"
  | .forStatement => "for_statement"
  | .forInit => "for_init"
  | .forTest => "for_test"
  | .forUpdate => "for_update"
  | .forInStatement => "for_in_statement"
  | .forInBinding => "for_in_binding"
  | .continueStatement => "continue_statement"
  | .breakStatement => "break_statement"
  | .returnStatement => "return_statement"
  | .withStatement => "with_statement"
  | .switchStatement => "switch_statement"
  | .caseClause => "case_clause"
  | .defaultClause => "default_clause"
  | .throwStatement => "throw_statement"
  | .tryStatement => "try_statement"
  | .catchClause => "catch_clause"
  | .finallyClause => "finally_clause"
  | .debuggerStatement => "debugger_statement"
  | .labelledStatement => "labelled_statement"
  | .primaryExpression => "primary_expression"
  | .parenthesizedExpression => "parenthesized_expression"
  | .arrayLiteral => "array_literal"
  | .arrayElement => "array_element"
  | .objectLiteral => "object_literal"
  | .propertyAssignment => "property_assignment"
  | .functionExpression => "function_expression"
  | .formalParameterList => "formal_parameter_list"
  | .functionBody => "function_body"
  | .lhsExpression => "lhs_expression"
  | .newExpressionWithArguments => "new_expression_with_arguments"
  | .newExpression => "new_expression"
  | .memberExpression => "member_expression"
  | .dotMember => "dot_member"
  | .computedMember => "computed_member"
  | .arguments => "arguments"
  | .postfixExpression => "postfix_expression"
  | .unaryExpression => "unary_expression"
  | .multiplicativeExpression => "multiplicative_expression"
  | .additiveExpression => "additive_expression"
  | .shiftExpression => "shift_expression"
  | .relationalExpression => "relational_expression"
  | .equalityExpression => "equality_expression"
  | .bitwiseAndExpression => "bitwise_and_expression"
  | .bitwiseXorExpression => "bitwise_xor_expression"
  | .bitwiseOrExpression => "bitwise_or_expression"
  | .logicalAndExpression => "logical_and_expression"
  | .logicalOrExpression => "logical_or_expression"
  | .conditionalExpression => "conditional_expression"
  | .assignmentExpression => "assignment_expression"
  | .expression => "expression"

/-- Parsing expressions over tokens and phrases. -/
inductive Pattern where
  /-- Matches at the start of the text only, and takes nothing. -/
  | start
  /-- Matches at the end of the text only; it leaves a mark in the parse tree. -/
  | finish
  /-- Matches the given characters. -/
  | chars (text : List Char)
  /-- Matches a token. -/
  | token (t : Token)
  /-- Matches a phrase. -/
  | phrase (p : Phrase)
  /-- Matches one pattern, skips blanks, and matches another. -/
  | seq (a b : Pattern)
  /-- Matches the first of two patterns that does. -/
  | alt (a b : Pattern)
  /-- Matches a pattern as often as it does, with blanks skipped in between. -/
  | many (a : Pattern)
  /-- Matches a pattern or nothing. -/
  | optional (a : Pattern)
  /-- Matches nothing, where the pattern would match. -/
  | ahead (a : Pattern)
  /-- Matches nothing, where the pattern would not match. -/
  | without (a : Pattern)
deriving Repr, DecidableEq

namespace Pattern

/-- A sequence of patterns. -/
def sequence : Pattern → List Pattern → Pattern
  | p, [] => p
  | p, q :: rest => .seq p (sequence q rest)

/-- A choice between patterns. -/
def choice : Pattern → List Pattern → Pattern
  | p, [] => p
  | p, q :: rest => .alt p (choice q rest)

/-- A punctuation mark. -/
def mark (text : String) : Pattern := .chars text.toList

/-- A keyword. -/
def kw (k : Keyword) : Pattern := .token (.keyword k)

/-- A pattern, and repetitions of it after a separator. -/
def separated (separator : String) (p : Pattern) : Pattern :=
  .seq p (.many (.seq (mark separator) p))

/-- One level of binary operators: operands joined by operators. -/
def operands (operand : Phrase) (operator : Token) : Pattern :=
  .seq (.phrase operand) (.many (.seq (.token operator) (.phrase operand)))

/-- A statement. -/
def statement : Pattern :=
  choice (.phrase .block)
    [.phrase .variableStatement, .phrase .emptyStatement, .phrase .ifStatement,
     .phrase .doWhileStatement, .phrase .whileStatement, .phrase .forInStatement,
     .phrase .forStatement, .phrase .continueStatement, .phrase .breakStatement,
     .phrase .returnStatement, .phrase .withStatement, .phrase .switchStatement,
     .phrase .throwStatement, .phrase .tryStatement, .phrase .debuggerStatement,
     .phrase .labelledStatement, .phrase .expressionStatement]

/-- A function declaration or a statement. -/
def sourceElement : Pattern := .alt (.phrase .functionDeclaration) statement

/-- The end of a statement: a semicolon, or the end of its block or of the script. -/
def statementEnd : Pattern :=
  choice (mark ";") [.ahead (mark "\x7d"), .ahead .finish]

/-- An expression in parentheses. -/
def condition : List Pattern := [mark "(", .phrase .expression, mark ")"]

/-- The parameters and the body of a function. -/
def functionRest : List Pattern :=
  [mark "(", .optional (.phrase .formalParameterList), mark ")", mark "\x7b",
   .phrase .functionBody, mark "\x7d"]

end Pattern

open Pattern in
/-- The definition of each phrase. -/
def Phrase.pattern : Phrase → Pattern
  | .script => sequence .start [.many sourceElement, .finish]
  | .functionDeclaration => sequence (kw .function) (.token .identifier :: functionRest)
  | .block => sequence (mark "\x7b") [.many sourceElement, mark "\x7d"]
  | .variableStatement =>
    sequence (kw .var) [.phrase .variableDeclarationList, statementEnd]
  | .variableDeclarationList => separated "," (.phrase .variableDeclaration)
  | .variableDeclaration =>
    .seq (.token .identifier) (.optional (.seq (mark "=") (.phrase .assignmentExpression)))
  | .emptyStatement => mark ";"
  | .expressionStatement =>
    sequence (.without (.alt (mark "\x7b") (kw .function))) [.phrase .expression, statementEnd]
  | .ifStatement =>
    sequence (kw .if_) (condition ++ [statement, .optional (.seq (kw .else_) statement)])
  | .doWhileStatement =>
    sequence (kw .do_) ([statement, kw .while_] ++ condition ++ [.optional (mark ";")])
  | .whileStatement => sequence (kw .while_) (condition ++ [statement])
  | .forStatement =>
    sequence (kw .for_)
      [mark "(", .optional (.phrase .forInit), mark ";", .optional (.phrase .forTest), mark ";",
       .optional (.phrase .forUpdate), mark ")", statement]
  | .forInit =>
    .alt (.seq (kw .var) (.phrase .variableDeclarationList)) (.phrase .expression)
  | .forTest => .phrase .expression
  | .forUpdate => .phrase .expression
  | .forInStatement =>
    sequence (kw .for_)
      [mark "(", .phrase .forInBinding, kw .in_, .phrase .expression, mark ")", statement]
  | .forInBinding => .alt (.seq (kw .var) (.token .identifier)) (.phrase .lhsExpression)
  | .continueStatement =>
    sequence (kw .continue_) [.optional (.token .identifier), statementEnd]
  | .breakStatement => sequence (kw .break_) [.optional (.token .identifier), statementEnd]
  | .returnStatement => sequence (kw .return_) [.optional (.phrase .expression), statementEnd]
  | .withStatement => sequence (kw .with_) (condition ++ [statement])
  | .switchStatement =>
    sequence (kw .switch)
      (condition ++
        [mark "\x7b", .many (.alt (.phrase .caseClause) (.phrase .defaultClause)), mark "\x7d"])
  | .caseClause =>
    sequence (kw .case) [.phrase .expression, mark ":", .many sourceElement]
  | .defaultClause => sequence (kw .default) [mark ":", .many sourceElement]
  | .throwStatement => sequence (kw .throw_) [.phrase .expression, statementEnd]
  | .tryStatement =>
    sequence (kw .try_)
      [.phrase .block,
       .alt (.seq (.phrase .catchClause) (.optional (.phrase .finallyClause)))
         (.phrase .finallyClause)]
  | .catchClause =>
    sequence (kw .catch_) [mark "(", .token .identifier, mark ")", .phrase .block]
  | .finallyClause => .seq (kw .finally_) (.phrase .block)
  | .debuggerStatement => .seq (kw .debugger) statementEnd
  | .labelledStatement => sequence (.token .identifier) [mark ":", statement]
  | .primaryExpression =>
    choice (kw .this)
      [.token .identifier, .token .nullLiteral, .token .booleanLiteral, .token .numericLiteral,
       .token .stringLiteral, .token .regularExpressionLiteral, .phrase .arrayLiteral,
       .phrase .objectLiteral, .phrase .functionExpression, .phrase .parenthesizedExpression]
  | .parenthesizedExpression => sequence (mark "(") [.phrase .expression, mark ")"]
  | .arrayLiteral =>
    sequence (mark "[") [.optional (separated "," (.phrase .arrayElement)), mark "]"]
  | .arrayElement => .optional (.phrase .assignmentExpression)
  | .objectLiteral =>
    sequence (mark "\x7b")
      [.optional (sequence (.phrase .propertyAssignment)
        [.many (.seq (mark ",") (.phrase .propertyAssignment)), .optional (mark ",")]),
       mark "\x7d"]
  | .propertyAssignment =>
    sequence
      (choice (.token .identifierName) [.token .stringLiteral, .token .numericLiteral])
      [mark ":", .phrase .assignmentExpression]
  | .functionExpression =>
    sequence (kw .function) (.optional (.token .identifier) :: functionRest)
  | .formalParameterList => separated "," (.token .identifier)
  | .functionBody => .many sourceElement
  | .lhsExpression =>
    .seq
      (choice (.phrase .newExpressionWithArguments)
        [.phrase .newExpression, .phrase .primaryExpression])
      (.many (choice (.phrase .arguments) [.phrase .dotMember, .phrase .computedMember]))
  | .newExpressionWithArguments =>
    sequence (kw .new) [.phrase .memberExpression, .phrase .arguments]
  | .newExpression =>
    .seq (kw .new) (.alt (.phrase .newExpression) (.phrase .memberExpression))
  | .memberExpression =>
    .seq (.alt (.phrase .newExpressionWithArguments) (.phrase .primaryExpression))
      (.many (.alt (.phrase .dotMember) (.phrase .computedMember)))
  | .dotMember => .seq (mark ".") (.token .identifierName)
  | .computedMember => sequence (mark "[") [.phrase .expression, mark "]"]
  | .arguments =>
    sequence (mark "(") [.optional (separated "," (.phrase .assignmentExpression)), mark ")"]
  | .postfixExpression =>
    .seq (.phrase .lhsExpression) (.optional (.token .postfixOperator))
  | .unaryExpression =>
    .alt (.seq (.token .unaryOperator) (.phrase .unaryExpression)) (.phrase .postfixExpression)
  | .multiplicativeExpression => operands .unaryExpression .multiplicativeOperator
  | .additiveExpression => operands .multiplicativeExpression .additiveOperator
  | .shiftExpression => operands .additiveExpression .shiftOperator
  | .relationalExpression => operands .shiftExpression .relationalOperator
  | .equalityExpression => operands .relationalExpression .equalityOperator
  | .bitwiseAndExpression => operands .equalityExpression .bitwiseAndOperator
  | .bitwiseXorExpression => operands .bitwiseAndExpression .bitwiseXorOperator
  | .bitwiseOrExpression => operands .bitwiseXorExpression .bitwiseOrOperator
  | .logicalAndExpression => operands .bitwiseOrExpression .logicalAndOperator
  | .logicalOrExpression => operands .logicalAndExpression .logicalOrOperator
  | .conditionalExpression =>
    .seq (.phrase .logicalOrExpression)
      (.optional (sequence (mark "?")
        [.phrase .assignmentExpression, mark ":", .phrase .assignmentExpression]))
  | .assignmentExpression =>
    .alt
      (sequence (.phrase .lhsExpression)
        [.token .assignmentOperator, .phrase .assignmentExpression])
      (.phrase .conditionalExpression)
  | .expression => separated "," (.phrase .assignmentExpression)

end ScriptEngine
