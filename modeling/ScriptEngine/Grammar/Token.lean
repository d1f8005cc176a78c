import ScriptEngine.Text.Identifier

/-!
# Tokens

The lexical elements of a script.  A token is recognised at the head of a text, without blanks
inside it; recognition gives the characters of the token and the text after it.

## Main definitions

* `Keyword` : the words with a place of their own in the grammar.
* `Token` : the kinds of tokens.
* `Token.scan?` : recognition of a token at the head of a text.
* `Token.label`, `Keyword.label` : the names shown in a rendered parse tree.
-/

namespace ScriptEngine

/-- The words with a place of their own in the grammar. -/
inductive Keyword where
  | break_ | case | catch_ | continue_ | debugger | default | do_ | else_ | finally_ | for_
  | function | if_ | in_ | new | return_ | switch | this | throw_ | try_ | var | while_ | with_
deriving Repr, DecidableEq

/-- The spelling of a keyword. -/
def Keyword.text : Keyword → String
  | .break_ => "break"
  | .case => "case"
  | .catch_ => "catch"
  | .continue_ => "continue"
  | .debugger => "debugger"
  | .default => "default"
  | .do_ => "do"
  | .else_ => "else"
  | .finally_ => "finally"
  | .for_ => "for"
  | .function => "function"
  | .if_ => "if"
  | .in_ => "in"
  | .new => "new"
  | .return_ => "return"
  | .switch => "switch"
  | .this => "this"
  | .throw_ => "throw"
  | .try_ => "try"
  | .var => "var"
  | .while_ => "while"
  | .with_ => "with"

/-- The name of a keyword in a rendered parse tree. -/
def Keyword.label (k : Keyword) : String :=
  "kw_" ++ k.text

/-- The kinds of tokens. -/
inductive Token where
  | identifier
  | identifierName
  | keyword (k : Keyword)
  | nullLiteral
  | booleanLiteral
  | numericLiteral
  | stringLiteral
  | regularExpressionLiteral
  | postfixOperator
  | unaryOperator
  | multiplicativeOperator
  | additiveOperator
  | shiftOperator
  | relationalOperator
  | equalityOperator
  | bitwiseAndOperator
  | bitwiseXorOperator
  | bitwiseOrOperator
  | logicalAndOperator
  | logicalOrOperator
  | assignmentOperator
deriving Repr, DecidableEq

namespace Token

/-- The name of a kind of token in a rendered parse tree. -/
def label : Token → String
  | .identifier => "identifier"
  | .identifierName => "identifier_name"
  | .keyword k => k.label
  | .nullLiteral => "null_literal"
  | .booleanLiteral => "boolean_literal"
  | .numericLiteral => "numeric_literal"
  | .stringLiteral => "string_literal"
  | .regularExpressionLiteral => "regular_expression_literal"
  | .postfixOperator => "postfix_operator"
  | .unaryOperator => "unary_operator"
  | .multiplicativeOperator => "multiplicative_operator"
  | .additiveOperator => "additive_operator"
  | .shiftOperator => "shift_operator"
  | .relationalOperator => "relational_operator"
  | .equalityOperator => "equality_operator"
  | .bitwiseAndOperator => "bitwise_and_operator"
  | .bitwiseXorOperator => "bitwise_xor_operator"
  | .bitwiseOrOperator => "bitwise_or_operator"
  | .logicalAndOperator => "logical_and_operator"
  | .logicalOrOperator => "logical_or_operator"
  | .assignmentOperator => "assignment_operator"

/-! ### Words -/

/-- The words that are no identifiers. -/
def reservedWords : List (List Char) :=
  ["break", "case", "catch", "class", "const", "continue", "debugger", "default", "delete", "do",
   "else", "enum", "export", "extends", "false", "finally", "for", "function", "if", "import",
   "instanceof", "in", "new", "null", "return", "super", "switch", "this", "throw", "true", "try",
   "typeof", "var", "void", "while", "with"].map String.toList

/-- What is recognised at the head of a text: its characters and the text after them. -/
abbrev Scan := List Char → Option (List Char × List Char)

/-- The longest run of identifier characters. -/
def word (cs : List Char) : List Char :=
  cs.takeWhile Text.isIdentifierPart

/-- The text after the longest run of identifier characters. -/
def afterWord (cs : List Char) : List Char :=
  cs.dropWhile Text.isIdentifierPart

/-- A name: a run of identifier characters with a proper first one. -/
def scanName : Scan
  | [] => none
  | c :: cs =>
    if Text.isIdentifierStart c then some (c :: word cs, afterWord cs) else none

/-- A name that is not a reserved word. -/
def scanIdentifier : Scan := fun cs =>
  if reservedWords.contains (word cs) then none else scanName cs

/-- One of the given words, not followed by an identifier character. -/
def scanWord (words : List (List Char)) : Scan := fun cs =>
  if words.contains (word cs) then some (word cs, afterWord cs) else none

/-! ### Numbers -/

/-- The longest run of characters of a class. -/
def run (p : Char → Bool) (cs : List Char) : List Char × List Char :=
  (cs.takeWhile p, cs.dropWhile p)

/-- An exponent: `e` or `E`, a sign, digits.  Nothing is taken if the digits are missing. -/
def exponentPart (cs : List Char) : List Char × List Char :=
  match cs with
  | e :: rest =>
    if e == 'e' || e == 'E' then
      let (sign, digits) := match rest with
        | '+' :: digits => (['+'], digits)
        | '-' :: digits => (['-'], digits)
        | digits => ([], digits)
      match run Char.isDigit digits with
      | ([], _) => ([], cs)
      | (ds, tail) => (e :: sign ++ ds, tail)
    else ([], cs)
  | [] => ([], [])

/-- The digits and the fraction of a decimal numeral. -/
def significand : Scan := fun cs =>
  match run Char.isDigit cs with
  | ([], '.' :: rest) =>
    match run Char.isDigit rest with
    | ([], _) => none
    | (fraction, tail) => some ('.' :: fraction, tail)
  | ([], _) => none
  | (whole, '.' :: rest) =>
    let (fraction, tail) := run Char.isDigit rest
    some (whole ++ '.' :: fraction, tail)
  | (whole, tail) => some (whole, tail)

/-- A decimal numeral. -/
def scanDecimal : Scan := fun cs =>
  (significand cs).map fun (text, rest) =>
    let (exponent, tail) := exponentPart rest
    (text ++ exponent, tail)

/-- A hexadecimal digit. -/
def isHexDigit (c : Char) : Bool :=
  c.isDigit || ('a' ≤ c && c ≤ 'f') || ('A' ≤ c && c ≤ 'F')

/-- A hexadecimal numeral. -/
def scanHex : Scan
  | '0' :: x :: rest =>
    if x == 'x' || x == 'X' then
      match run isHexDigit rest with
      | ([], _) => none
      | (digits, tail) => some ('0' :: x :: digits, tail)
    else none
  | _ => none

/-- A numeral that is not directly followed by a digit or the start of an identifier. -/
def scanNumber : Scan := fun cs =>
  match (scanHex cs).or (scanDecimal cs) with
  | some (text, rest) =>
    if rest.head?.any fun c => Text.isIdentifierStart c || c.isDigit then none
    else some (text, rest)
  | none => none

/-! ### Strings and regular expressions -/

/-- Puts a character in front of the recognised text. -/
def push (c : Char) : Option (List Char × List Char) → Option (List Char × List Char)
  | some (text, rest) => some (c :: text, rest)
  | none => none

/-- A line end inside a literal. -/
def isLineEnd (c : Char) : Bool :=
  c == '\n' || c == '\r'

/-- The rest of a string literal up to its closing quote.  A backslash takes the next character with
it, or a carriage return with its line feed. -/
def stringTail (quote : Char) : Scan
  | [] => none
  | '\\' :: '\r' :: '\n' :: rest => push '\\' (push '\r' (push '\n' (stringTail quote rest)))
  | '\\' :: c :: rest => push '\\' (push c (stringTail quote rest))
  | c :: rest =>
    if c == quote then some ([c], rest)
    else if c == '\\' || isLineEnd c then none
    else push c (stringTail quote rest)

/-- A string literal in single or double quotes. -/
def scanString : Scan
  | '"' :: rest => push '"' (stringTail '"' rest)
  | '\'' :: rest => push '\'' (stringTail '\'' rest)
  | _ => none

/-- The rest of a regular expression up to its closing slash.  Inside a class in brackets a slash
stands for itself. -/
def regularExpressionTail (inClass : Bool) : Scan
  | [] => none
  | '\\' :: [] => none
  | '\\' :: c :: rest =>
    if isLineEnd c then none else push '\\' (push c (regularExpressionTail inClass rest))
  | c :: rest =>
    if isLineEnd c then none
    else if inClass then push c (regularExpressionTail (c != ']') rest)
    else if c == '/' then some ([c], rest)
    else push c (regularExpressionTail (c == '[') rest)

/-- A regular expression literal: a nonempty body between slashes, and flags. -/
def scanRegularExpression : Scan
  | '/' :: c :: rest =>
    if c == '*' || c == '/' then none
    else
      match push '/' (regularExpressionTail false (c :: rest)) with
      | some (text, tail) => some (text ++ word tail, afterWord tail)
      | none => none
  | _ => none

/-! ### Operators -/

/-- What may not follow an operator. -/
inductive Follow where
  | anything
  | noneOf (cs : List Char)
  | wordEnd
deriving Repr, DecidableEq

/-- Whether a text may follow. -/
def Follow.allows : Follow → List Char → Bool
  | .anything, _ => true
  | .noneOf cs, rest => !rest.head?.any cs.contains
  | .wordEnd, rest => !rest.head?.any Text.isIdentifierPart

/-- One operator with the condition on the text after it. -/
structure Spelling where
  text : List Char
  follow : Follow

/-- The text after a given beginning. -/
def after? : List Char → List Char → Option (List Char)
  | [], cs => some cs
  | _ :: _, [] => none
  | p :: ps, c :: cs => if p == c then after? ps cs else none

/-- An operator without a condition on what follows. -/
def symbol (text : String) : Spelling := ⟨text.toList, .anything⟩

/-- An operator that is not directly followed by one of the given characters. -/
def symbolNot (text : String) (next : String) : Spelling := ⟨text.toList, .noneOf next.toList⟩

/-- An operator that is a word. -/
def symbolWord (text : String) : Spelling := ⟨text.toList, .wordEnd⟩

/-- The first of several operators that stands at the head of a text. -/
def scanOperator : List Spelling → Scan
  | [], _ => none
  | s :: rest, cs =>
    match after? s.text cs with
    | some tail => if s.follow.allows tail then some (s.text, tail) else scanOperator rest cs
    | none => scanOperator rest cs

/-- The spellings of an operator token, first match first. -/
def spellings : Token → List Spelling
  | .postfixOperator => [symbol "++", symbol "--"]
  | .unaryOperator =>
    [symbol "++", symbol "--", symbolWord "delete", symbolWord "void", symbolWord "typeof",
     symbol "+", symbol "-", symbol "~", symbol "!"]
  | .multiplicativeOperator => [symbolNot "*" "=", symbolNot "/" "=", symbolNot "%" "="]
  | .additiveOperator => [symbolNot "+" "+=", symbolNot "-" "-="]
  | .shiftOperator => [symbolNot ">>>" "=", symbolNot "<<" "=", symbolNot ">>" ">="]
  | .relationalOperator =>
    [symbol "<=", symbol ">=", symbolNot "<" "<", symbolNot ">" ">", symbolWord "instanceof",
     symbolWord "in"]
  | .equalityOperator => [symbol "===", symbol "!==", symbol "==", symbol "!="]
  | .bitwiseAndOperator => [symbolNot "&" "&="]
  | .bitwiseXorOperator => [symbolNot "^" "="]
  | .bitwiseOrOperator => [symbolNot "|" "|="]
  | .logicalAndOperator => [symbol "&&"]
  | .logicalOrOperator => [symbol "||"]
  | .assignmentOperator =>
    [symbolNot "=" "=", symbol "+=", symbol "-=", symbol "*=", symbol "/=", symbol "%=",
     symbol "<<=", symbol ">>>=", symbol ">>=", symbol "&=", symbol "|=", symbol "^="]
  | _ => []

/-- Recognises a token at the head of a text. -/
def scan? (t : Token) : Scan :=
  match t with
  | .identifier => scanIdentifier
  | .identifierName => scanName
  | .keyword k => scanWord [k.text.toList]
  | .nullLiteral => scanWord ["null".toList]
  | .booleanLiteral => scanWord ["true".toList, "false".toList]
  | .numericLiteral => scanNumber
  | .stringLiteral => scanString
  | .regularExpressionLiteral => scanRegularExpression
  | t => scanOperator t.spellings

end Token

end ScriptEngine
