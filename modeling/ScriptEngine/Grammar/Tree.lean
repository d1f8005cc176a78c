import ScriptEngine.Grammar.Phrase
import ScriptEngine.Text.Quoted

/-!
# Parse trees

A parse tree has a leaf for every token and a node for every phrase, each with the range of bytes
that it covers in the UTF-8 source.

## Main definitions

* `Span` : a range of byte offsets.
* `Tree` : parse trees.
* `Source.slice` : the text of a range of bytes.
* `Tree.lines` : a parse tree in lines of text, one per leaf or node.
-/

namespace ScriptEngine

/-- A range of byte offsets in the source, the end excluded. -/
structure Span where
  start : Nat
  stop : Nat
deriving Repr, DecidableEq, Inhabited

/-- The least range that begins with one range and ends with another. -/
def Span.join (a b : Span) : Span := ⟨a.start, b.stop⟩

/-- Parse trees. -/
inductive Tree where
  | leaf (token : Token) (span : Span) (text : List Char)
  | node (phrase : Phrase) (span : Span) (children : List Tree)
  | finish (offset : Nat)
deriving Repr, Inhabited

/-- The range of a parse tree. -/
def Tree.span : Tree → Span
  | .leaf _ span _ => span
  | .node _ span _ => span
  | .finish offset => ⟨offset, offset⟩

/-- The number of bytes of a text in UTF-8. -/
def byteSize (cs : List Char) : Nat :=
  cs.foldl (fun n c => n + c.utf8Size) 0

namespace Source

/-- The text after the first `n` bytes. -/
def dropBytes : Nat → List Char → List Char
  | _, [] => []
  | n, c :: cs => if n == 0 then c :: cs else dropBytes (n - c.utf8Size) cs

/-- The text of the first `n` bytes. -/
def takeBytes : Nat → List Char → List Char
  | _, [] => []
  | n, c :: cs => if n == 0 then [] else c :: takeBytes (n - c.utf8Size) cs

/-- The text of a range of bytes. -/
def slice (source : List Char) (span : Span) : List Char :=
  takeBytes (span.stop - span.start) (dropBytes span.start source)

end Source

namespace Tree

/-- One line of a rendered parse tree. -/
def line (source : List Char) (level : Nat) (name : String) (span : Span) : String :=
  String.ofList (List.replicate (2 * level) ' ') ++ name ++
    s!" => ({span.start},{span.stop}) #" ++
    Text.quoted (String.ofList (Source.slice source span))

mutual

/-- A parse tree in lines of text, indented by two blanks per level. -/
def lines (source : List Char) (level : Nat) : Tree → List String
  | .leaf token span _ => [line source level token.label span]
  | .node phrase span children =>
    line source level phrase.label span :: linesAll source (level + 1) children
  | .finish offset => [line source level "EOI" ⟨offset, offset⟩]

/-- The lines of several parse trees at one level. -/
def linesAll (source : List Char) (level : Nat) : List Tree → List String
  | [] => []
  | t :: ts => lines source level t ++ linesAll source level ts

end

end Tree

end ScriptEngine
