import ScriptEngine.Script.Ast
import ScriptEngine.Script.Literal
import ScriptEngine.Script.Position
import ScriptEngine.Grammar.Match

/-!
# From parse trees to scripts

The script that a parse tree describes.  Node ids and function ids are given out in the order in
which identifiers and functions are met.

## Main definitions

* `BuildError` : what the grammar admits but no script means.
* `Program.ofTree` : the script of a parse tree.
* `ParseError`, `Program.parse` : the script of a source text.
-/

namespace ScriptEngine

/-- What the grammar admits although no script means it. -/
inductive BuildError where
  | invalidAssignment (span : Span)
  | invalidForIn (span : Span)
  | invalidBefore (span : Span)
  | invalidAfter (span : Span)
  | duplicateDefault (span : Span)
  /-- A parse tree that no source text has. -/
  | malformed (span : Span)
deriving Repr, DecidableEq

namespace BuildError

/-- The range that an error is about. -/
def span : BuildError → Span
  | .invalidAssignment span => span
  | .invalidForIn span => span
  | .invalidBefore span => span
  | .invalidAfter span => span
  | .duplicateDefault span => span
  | .malformed span => span

/-- The text of an error. -/
def message : BuildError → String
  | .invalidAssignment _ => "Invalid left-hand side in assignment"
  | .invalidForIn _ => "Invalid left-hand side in for-in"
  | .invalidBefore _ => "Invalid left-hand side expression in prefix operation"
  | .invalidAfter _ => "Invalid left-hand side expression in postfix operation"
  | .duplicateDefault _ => "More than one default clause in switch statement"
  | .malformed _ => "Incomplete statement"

end BuildError

/-- The ids to be given out next. -/
structure Counters where
  node : NodeId
  function : FunctionId

/-- Building with ids and errors. -/
abbrev Build := StateT Counters (Except BuildError)

namespace Build

/-- Takes the next node id. -/
def nextNode : Build NodeId :=
  modifyGet fun c => (c.node, { c with node := c.node + 1 })

/-- Takes the next function id. -/
def nextFunction : Build FunctionId :=
  modifyGet fun c => (c.function, { c with function := c.function + 1 })

/-- A parse tree that no source text has. -/
def malformed {α : Type} (span : Span) : Build α :=
  throw (.malformed span)

/-- What is there, or else the error of a malformed parse tree. -/
def orMalformed {α : Type} (span : Span) : Option α → Build α
  | some a => pure a
  | none => malformed span

/-- An occurrence of an identifier. -/
def identifier (span : Span) (text : List Char) : Build Identifier := do
  let id ← nextNode
  pure ⟨id, String.ofList text, span⟩

/-- The occurrences of identifiers in a parameter list. -/
def identifiers : List Tree → Build (List Identifier)
  | [] => pure []
  | .leaf .identifier span text :: rest => do
    let name ← identifier span text
    let names ← identifiers rest
    pure (name :: names)
  | t :: _ => malformed t.span

/-- The texts of the expression statements among statements, for the search for directives. -/
def directives (source : List Char) (elements : List Tree) : List (Option (List Char)) :=
  elements.map fun
    | .node .expressionStatement span _ => some (Source.slice source span)
    | _ => none

/-- The value of a token that is an expression by itself. -/
def leaf (token : Token) (span : Span) (text : List Char) : Build Expr :=
  match token with
  | .keyword .this => pure (.this span)
  | .identifier => .identifier <$> identifier span text
  | .nullLiteral => pure (.literal span .null)
  | .booleanLiteral => pure (.literal span (.boolean (text == "true".toList)))
  | .numericLiteral => do
    let n ← orMalformed span (literalValue? text)
    pure (.literal span (.number n))
  | .stringLiteral => pure (.literal span (.string (stringLiteralValue text)))
  | .regularExpressionLiteral =>
    let flags := (text.reverse.takeWhile (· != '/')).reverse
    let pattern := (text.drop 1).take (text.length - flags.length - 2)
    pure (.literal span (.regularExpression (String.ofList pattern) (String.ofList flags)))
  | _ => malformed span

/-- The key of a property in an object literal. -/
def propertyKey : Tree → Build String
  | .leaf .stringLiteral _ text => pure (stringLiteralValue text)
  | .leaf .numericLiteral span text => numericKey <$> orMalformed span (literalValue? text)
  | .leaf .identifierName _ text => pure (String.ofList text)
  | t => malformed t.span

/-- Two operands joined by an operator. -/
def joined (left : Expr) (operator : Token) (span : Span) (text : List Char) (right : Expr) :
    Build Expr :=
  let whole := left.span.join right.span
  match operator with
  | .logicalOrOperator => pure (.logical whole .or left right)
  | .logicalAndOperator => pure (.logical whole .and left right)
  | _ => do
    let op ← orMalformed span (BinaryOp.ofText? text)
    pure (.binary whole op left right)

/-- Leaves out a hole at the end: a trailing comma adds no element. -/
def dropTrailingHole (elements : List (Option Expr)) : List (Option Expr) :=
  match elements.getLast? with
  | some none => elements.dropLast
  | _ => elements

variable (source : List Char)

mutual

/-- The expression of a parse tree at a position. -/
def expr (position : Position) (strict : Bool) : Tree → Build Expr
  | .leaf token span text =>
    if position == .atom then leaf token span text else malformed span
  | .finish offset => malformed ⟨offset, offset⟩
  | .node phrase span children =>
    if position.phrases.contains phrase && Tree.hasKeywords phrase children then
      match phrase, children with
      | .expression, [only] => expr .assignment strict only
      | .expression, several => do
        let expressions ← exprs strict several
        pure (.sequence span expressions)
      | .assignmentExpression, [value] => expr .conditional strict value
      | .assignmentExpression, [left, .leaf _ opSpan op, right] => do
        let place ← expr .leftHand strict left
        match place.target? with
        | none => throw (.invalidAssignment left.span)
        | some target =>
          let op ← orMalformed opSpan (AssignOp.ofText? op)
          let value ← expr .assignment strict right
          pure (.assign span op target value)
      | .conditionalExpression, [value] => expr .operand strict value
      | .conditionalExpression, [test, consequent, alternate] => do
        let test ← expr .operand strict test
        let consequent ← expr .assignment strict consequent
        let alternate ← expr .assignment strict alternate
        pure (.conditional span test consequent alternate)
      | .unaryExpression, [value] => expr .postfixed strict value
      | .unaryExpression, [.leaf _ opSpan op, operand] => do
        let argument ← expr .unary strict operand
        match UpdateOp.ofText? op with
        | some update =>
          match argument.target? with
          | none => throw (.invalidBefore operand.span)
          | some target => pure (.update span update target true)
        | none =>
          let op ← orMalformed opSpan (UnaryOp.ofText? op)
          pure (.unary span op argument)
      | .postfixExpression, [value] => expr .leftHand strict value
      | .postfixExpression, [operand, .leaf _ opSpan op] => do
        let argument ← expr .leftHand strict operand
        match argument.target? with
        | none => throw (.invalidAfter operand.span)
        | some target =>
          let update ← orMalformed opSpan (UpdateOp.ofText? op)
          pure (.update span update target false)
      | .lhsExpression, head :: suffixes => do
        let base ← expr .head strict head
        withSuffixes strict base suffixes
      | .memberExpression, head :: suffixes => do
        let base ← expr .head strict head
        withSuffixes strict base suffixes
      | .newExpressionWithArguments, [_, callee, .node .arguments _ arguments] => do
        let callee ← expr .member strict callee
        let arguments ← exprs strict arguments
        pure (.construct span callee arguments)
      | .newExpression, [_, callee] => do
        let callee ← expr .head strict callee
        pure (.construct span callee [])
      | .primaryExpression, [inner] => expr .atom strict inner
      | .parenthesizedExpression, [inner] => expr .expression strict inner
      | .arrayLiteral, elements => do
        let elements ← arrayElements strict elements
        pure (.array span (dropTrailingHole elements))
      | .objectLiteral, properties => do
        let properties ← objectProperties strict properties
        pure (.object span properties)
      | .functionExpression, parts => .function <$> func strict true span parts
      | phrase, first :: rest =>
        if Phrase.infixes.contains phrase then do
          let left ← expr .operand strict first
          chain strict left rest
        else malformed span
      | _, [] => malformed span
    else malformed span

/-- The expressions of several parse trees. -/
def exprs (strict : Bool) : List Tree → Build (List Expr)
  | [] => pure []
  | t :: ts => do
    let e ← expr .assignment strict t
    let es ← exprs strict ts
    pure (e :: es)

/-- Joins operands to the left by the operators between them. -/
def chain (strict : Bool) (left : Expr) : List Tree → Build Expr
  | [] => pure left
  | .leaf operator span text :: operand :: rest => do
    let right ← expr .operand strict operand
    let both ← joined left operator span text right
    chain strict both rest
  | t :: _ => malformed t.span

/-- Applies calls and property references to an expression, from the left. -/
def withSuffixes (strict : Bool) (base : Expr) : List Tree → Build Expr
  | [] => pure base
  | .node .arguments span arguments :: rest => do
    let arguments ← exprs strict arguments
    withSuffixes strict (.call (base.span.join span) base arguments) rest
  | .node .dotMember span [.leaf .identifierName _ name] :: rest =>
    withSuffixes strict (.member (.named (base.span.join span) base (String.ofList name))) rest
  | .node .computedMember span [property] :: rest => do
    let property ← expr .expression strict property
    withSuffixes strict (.member (.computed (base.span.join span) base property)) rest
  | t :: _ => malformed t.span

/-- The elements of an array literal. -/
def arrayElements (strict : Bool) : List Tree → Build (List (Option Expr))
  | [] => pure []
  | .node .arrayElement _ [] :: rest => do
    let elements ← arrayElements strict rest
    pure (none :: elements)
  | .node .arrayElement _ [element] :: rest => do
    let element ← expr .assignment strict element
    let elements ← arrayElements strict rest
    pure (some element :: elements)
  | t :: _ => malformed t.span

/-- The properties of an object literal. -/
def objectProperties (strict : Bool) : List Tree → Build (List Property)
  | [] => pure []
  | .node .propertyAssignment span [key, value] :: rest => do
    let key ← propertyKey key
    let value ← expr .assignment strict value
    let properties ← objectProperties strict rest
    pure (.mk span key value :: properties)
  | t :: _ => malformed t.span

/-- A function, from the parts after its range. -/
def func (strict isExpression : Bool) (span : Span) : List Tree → Build Func
  | [_, .node .functionBody bodySpan body] => do
    let id ← nextFunction
    let strict := strict || hasStrictDirective (directives source body)
    let body ← stmts strict body
    pure (.mk span id none [] strict isExpression bodySpan body)
  | [_, .leaf .identifier nameSpan name, .node .functionBody bodySpan body] => do
    let id ← nextFunction
    let name ← identifier nameSpan name
    let strict := strict || hasStrictDirective (directives source body)
    let body ← stmts strict body
    pure (.mk span id (some name) [] strict isExpression bodySpan body)
  | [_, .node .formalParameterList _ params, .node .functionBody bodySpan body] => do
    let id ← nextFunction
    let params ← identifiers params
    let strict := strict || hasStrictDirective (directives source body)
    let body ← stmts strict body
    pure (.mk span id none params strict isExpression bodySpan body)
  | [_, .leaf .identifier nameSpan name, .node .formalParameterList _ params,
      .node .functionBody bodySpan body] => do
    let id ← nextFunction
    let name ← identifier nameSpan name
    let params ← identifiers params
    let strict := strict || hasStrictDirective (directives source body)
    let body ← stmts strict body
    pure (.mk span id (some name) params strict isExpression bodySpan body)
  | _ => malformed span

/-- The statements of several parse trees. -/
def stmts (strict : Bool) : List Tree → Build (List Stmt)
  | [] => pure []
  | t :: ts => do
    let s ← stmt strict t
    let rest ← stmts strict ts
    pure (s :: rest)

/-- The variables of a declaration. -/
def declarators (strict : Bool) : List Tree → Build (List Declarator)
  | [] => pure []
  | .node .variableDeclaration span [.leaf .identifier nameSpan name] :: rest => do
    let name ← identifier nameSpan name
    let more ← declarators strict rest
    pure (.mk span name none :: more)
  | .node .variableDeclaration span [.leaf .identifier nameSpan name, init] :: rest => do
    let name ← identifier nameSpan name
    let init ← expr .assignment strict init
    let more ← declarators strict rest
    pure (.mk span name (some init) :: more)
  | t :: _ => malformed t.span

/-- A `for` loop, from the parts that are left.  Each part in its head comes at most once. -/
def forLoop (strict : Bool) (span : Span) :
    ForInit → Option Expr → Option Expr → List Tree → Build Stmt
  | .nothing, test, update,
      .node .forInit initSpan [_, .node .variableDeclarationList _ ds] :: rest => do
    let ds ← declarators strict ds
    forLoop strict span (.declaration initSpan ds) test update rest
  | .nothing, test, update, .node .forInit _ [e] :: rest => do
    let e ← expr .expression strict e
    forLoop strict span (.expression e) test update rest
  | init, none, update, .node .forTest _ [e] :: rest => do
    let e ← expr .expression strict e
    forLoop strict span init (some e) update rest
  | init, test, none, .node .forUpdate _ [e] :: rest => do
    let e ← expr .expression strict e
    forLoop strict span init test (some e) rest
  | init, test, update, [body] => do
    let body ← stmt strict body
    pure (.for span init test update body)
  | _, _, _, _ => malformed span

/-- The clauses of a `switch`, of which one may be the default. -/
def switchClauses (strict hasDefault : Bool) : List Tree → Build (List SwitchClause)
  | [] => pure []
  | .node .caseClause span (_ :: test :: body) :: rest => do
    let test ← expr .expression strict test
    let body ← stmts strict body
    let more ← switchClauses strict hasDefault rest
    pure (.mk span (some test) body :: more)
  | .node .defaultClause span (_ :: body) :: rest => do
    if hasDefault then
      throw (.duplicateDefault span)
    else
      let body ← stmts strict body
      let more ← switchClauses strict true rest
      pure (.mk span none body :: more)
  | t :: _ => malformed t.span

/-- The statement of a parse tree.  Keywords are passed over where they belong. -/
def stmt (strict : Bool) : Tree → Build Stmt
  | .node phrase span children =>
    if Tree.hasKeywords phrase children then
      match phrase, children with
      | .functionDeclaration, parts => .function <$> func strict false span parts
      | .block, body => do
        let body ← stmts strict body
        pure (.block (.mk span body))
      | .variableStatement, [_, .node .variableDeclarationList _ ds] => do
        let ds ← declarators strict ds
        pure (.declaration span ds)
      | .emptyStatement, _ => pure (.empty span)
      | .debuggerStatement, _ => pure (.debugger span)
      | .expressionStatement, [e] => do
        let e ← expr .expression strict e
        pure (.expression span e)
      | .ifStatement, [_, test, consequent] => do
        let test ← expr .expression strict test
        let consequent ← stmt strict consequent
        pure (.conditional span test consequent none)
      | .ifStatement, [_, test, consequent, _, alternate] => do
        let test ← expr .expression strict test
        let consequent ← stmt strict consequent
        let alternate ← stmt strict alternate
        pure (.conditional span test consequent (some alternate))
      | .doWhileStatement, [_, body, _, test] => do
        let body ← stmt strict body
        let test ← expr .expression strict test
        pure (.doWhile span test body)
      | .whileStatement, [_, test, body] => do
        let test ← expr .expression strict test
        let body ← stmt strict body
        pure (.while span test body)
      | .forStatement, _ :: parts => forLoop strict span .nothing none none parts
      | .forInStatement, [_, .node _ bindingSpan binding, _, right, body] => do
        let left ← forInTarget strict bindingSpan binding
        let right ← expr .expression strict right
        let body ← stmt strict body
        pure (.forIn span left right body)
      | .continueStatement, [_] => pure (.cont span none)
      | .continueStatement, [_, .leaf _ _ label] => pure (.cont span (some (String.ofList label)))
      | .breakStatement, [_] => pure (.brk span none)
      | .breakStatement, [_, .leaf _ _ label] => pure (.brk span (some (String.ofList label)))
      | .returnStatement, [_] => pure (.ret span none)
      | .returnStatement, [_, e] => do
        let e ← expr .expression strict e
        pure (.ret span (some e))
      | .withStatement, [_, object, body] => do
        let object ← expr .expression strict object
        let body ← stmt strict body
        let id ← nextNode
        pure (.with span id object body)
      | .switchStatement, _ :: discriminant :: clauses => do
        let discriminant ← expr .expression strict discriminant
        let clauses ← switchClauses strict false clauses
        pure (.switch span discriminant clauses)
      | .throwStatement, [_, e] => do
        let e ← expr .expression strict e
        pure (.throw span e)
      | .tryStatement, [_, .node .block blockSpan body, .node .finallyClause _ [_, finalizer]] => do
        let body ← stmts strict body
        let finalizer ← block strict finalizer
        pure (.tryCatch span (.mk blockSpan body) none (some finalizer))
      | .tryStatement, [_, .node .block blockSpan body, handler] => do
        let body ← stmts strict body
        let handler ← catchClause strict handler
        pure (.tryCatch span (.mk blockSpan body) (some handler) none)
      | .tryStatement,
          [_, .node .block blockSpan body, handler, .node .finallyClause _ [_, finalizer]] => do
        let body ← stmts strict body
        let handler ← catchClause strict handler
        let finalizer ← block strict finalizer
        pure (.tryCatch span (.mk blockSpan body) (some handler) (some finalizer))
      | .labelledStatement, [.leaf _ _ label, body] => do
        let body ← stmt strict body
        pure (.labeled span (String.ofList label) body)
      | _, _ => malformed span
    else malformed span
  | t => malformed t.span

/-- What a `for`-`in` loop assigns its keys to. -/
def forInTarget (strict : Bool) (span : Span) : List Tree → Build ForInTarget
  | [_, .leaf .identifier nameSpan name] => .declaration <$> identifier nameSpan name
  | [place] => do
    let e ← expr .leftHand strict place
    match e.target? with
    | some target => pure (.target target)
    | none => throw (.invalidForIn span)
  | _ => malformed span

/-- Statements in braces. -/
def block (strict : Bool) : Tree → Build Block
  | .node .block span body => do
    let body ← stmts strict body
    pure (.mk span body)
  | t => malformed t.span

/-- The `catch` clause of a `try`. -/
def catchClause (strict : Bool) : Tree → Build Handler
  | .node .catchClause span [_, .leaf .identifier nameSpan name, body] => do
    let param ← identifier nameSpan name
    let body ← block strict body
    pure (.mk span param body)
  | t => malformed t.span

end

end Build

/-- The script of a parse tree. -/
def Program.ofTree (source : List Char) : Tree → Except BuildError Program
  | .node .script span children =>
    let elements := children.filter fun
      | .finish _ => false
      | _ => true
    let strict := hasStrictDirective (Build.directives source elements)
    match (Build.stmts source strict elements).run ⟨0, 1⟩ with
    | .ok (body, counters) => .ok ⟨span, body, strict, counters.function, counters.node⟩
    | .error e => .error e
  | t => .error (.malformed t.span)

/-- Why a source text is no script. -/
inductive ParseError where
  /-- The text does not follow the grammar; the offset is that of the furthest failure. -/
  | grammar (offset line column : Nat)
  | build (error : BuildError)
deriving Repr, DecidableEq

/-- The script of a source text. -/
def Program.parse (source : String) : Except ParseError Program :=
  let chars := source.toList
  match Tree.ofSource chars with
  | .error offset =>
    let (line, column) := lineColumn chars offset
    .error (.grammar offset line column)
  | .ok tree =>
    match Program.ofTree chars tree with
    | .ok program => .ok program
    | .error e => .error (.build e)

/-- The parse tree of a source text in lines. -/
def Tree.render (source : String) : Except ParseError (List String) :=
  let chars := source.toList
  match Tree.ofSource chars with
  | .error offset =>
    let (line, column) := lineColumn chars offset
    .error (.grammar offset line column)
  | .ok tree => .ok (tree.lines chars 0)

end ScriptEngine
