import ScriptEngine.Grammar.Tree

/-!
# Matching patterns

The meaning of patterns on a text.  A match consumes a beginning of the text and yields the parse
trees of the tokens and phrases in it.  Beside the outcome the furthest failure is kept: the largest
offset at which a token or phrase was tried in vain, or was found where it must not be.

Phrases refer to each other, so the depth of nested phrases is bounded by fuel; `Parse.fuel` is
enough for every text.

## Main definitions

* `Cursor` : a place in the text.
* `skipBlanks` : blanks and comments.
* `Outcome` : a match, a failure, or too little fuel.
* `Pattern.match_`, `Phrase.match_` : the meaning of patterns and phrases.
* `Tree.ofSource` : the parse tree of a whole script, or the place of the error.
-/

namespace ScriptEngine

/-- A place in the text: the bytes before it and the characters after it. -/
structure Cursor where
  offset : Nat
  rest : List Char
deriving Repr, DecidableEq

/-- The place after some characters. -/
def Cursor.advance (c : Cursor) (text rest : List Char) : Cursor :=
  ⟨c.offset + byteSize text, rest⟩

/-! ### Blanks and comments -/

/-- A blank between tokens. -/
def isBlank (c : Char) : Bool :=
  c == ' ' || c == '\t' || c == '\r' || c == '\n' || c == '\x0B' || c == '\x0C' || c == '\u00A0' ||
    c == '\uFEFF' || c == '\u2028' || c == '\u2029'

/-- The place after the end of a comment in stars, if it has one. -/
def closeComment (offset : Nat) : List Char → Option Cursor
  | [] => none
  | '*' :: '/' :: rest => some ⟨offset + 2, rest⟩
  | c :: rest => closeComment (offset + c.utf8Size) rest

/-- The end of the line. -/
def lineEnd (offset : Nat) : List Char → Cursor
  | [] => ⟨offset, []⟩
  | c :: rest =>
    if c == '\n' || c == '\r' then ⟨offset, c :: rest⟩ else lineEnd (offset + c.utf8Size) rest

theorem length_closeComment {offset : Nat} {cs : List Char} {c : Cursor}
    (h : closeComment offset cs = some c) : c.rest.length < cs.length := by
  fun_induction closeComment offset cs with
  | case1 => simp at h
  | case2 => simp at h; subst h; simp only [List.length_cons]; omega
  | case3 offset a rest _ ih => have := ih h; simp; omega

theorem length_lineEnd (offset : Nat) (cs : List Char) :
    (lineEnd offset cs).rest.length ≤ cs.length := by
  fun_induction lineEnd offset cs with
  | case1 => simp
  | case2 => simp
  | case3 offset a rest _ ih => simp; omega

/-- The place after blanks and comments.  A comment in stars that never ends is no comment. -/
def skipBlanks (offset : Nat) (cs : List Char) : Cursor :=
  match cs with
  | [] => ⟨offset, []⟩
  | '/' :: '*' :: rest =>
    match _h : closeComment (offset + 2) rest with
    | some c => skipBlanks c.offset c.rest
    | none => ⟨offset, '/' :: '*' :: rest⟩
  | '/' :: '/' :: rest =>
    let c := lineEnd (offset + 2) rest
    skipBlanks c.offset c.rest
  | c :: rest => if isBlank c then skipBlanks (offset + c.utf8Size) rest else ⟨offset, c :: rest⟩
termination_by cs.length
decreasing_by
  · have := length_closeComment _h; simp; omega
  · have := length_lineEnd (offset + 2) rest; simp; omega
  · simp

/-- The place after blanks and comments. -/
def Cursor.skip (c : Cursor) : Cursor :=
  skipBlanks c.offset c.rest

/-! ### Outcomes -/

/-- What became of a pattern: a match with its parse trees and the place after it, a failure, or
fuel that ran out. -/
inductive Outcome where
  | matched (trees : List Tree) (next : Cursor)
  | failed
  | exhausted
deriving Repr, Inhabited

/-- An outcome together with the furthest failure so far. -/
structure Attempt where
  outcome : Outcome
  furthest : Nat
deriving Repr, Inhabited

/-- A way to match: it takes whether matches are wanted, the furthest failure so far and a place.
Where matches are not wanted, as under a negative lookahead, it is they that count as failures. -/
abbrev Matcher := Bool → Nat → Cursor → Attempt

/-- Records the end of an attempt, begun at a place, to find a token or phrase. -/
def Attempt.record (wanted : Bool) (from_ : Cursor) (a : Attempt) : Attempt :=
  match a.outcome with
  | .matched .. => if wanted then a else { a with furthest := max a.furthest from_.offset }
  | .failed => if wanted then { a with furthest := max a.furthest from_.offset } else a
  | .exhausted => a

/-- The outcome of a recogniser of tokens. -/
def scanAt (t : Token) (c : Cursor) : Outcome :=
  match t.scan? c.rest with
  | some (text, rest) =>
    let next := c.advance text rest
    .matched [.leaf t ⟨c.offset, next.offset⟩ text] next
  | none => .failed

/-- Further repetitions of a matcher after a first one, with blanks skipped before each.  Each
repetition takes at least a character, so the length of the text is enough fuel. -/
def repeatFrom (m : Matcher) (wanted : Bool) : Nat → Nat → List Tree → Cursor → Attempt
  | 0, furthest, _, _ => ⟨.exhausted, furthest⟩
  | fuel + 1, furthest, trees, c =>
    match m wanted furthest c.skip with
    | ⟨.matched more next, furthest⟩ => repeatFrom m wanted fuel furthest (trees ++ more) next
    | ⟨.failed, furthest⟩ => ⟨.matched trees c, furthest⟩
    | ⟨.exhausted, furthest⟩ => ⟨.exhausted, furthest⟩

/-- The meaning of a pattern, given the meaning of phrases. -/
def Pattern.match_ (phrase : Phrase → Matcher) : Pattern → Matcher
  | .start, _, furthest, c =>
    ⟨if c.offset == 0 then .matched [] c else .failed, furthest⟩
  | .finish, wanted, furthest, c =>
    let outcome := if c.rest.isEmpty then .matched [.finish c.offset] c else .failed
    (Attempt.mk outcome furthest).record wanted c
  | .chars text, _, furthest, c =>
    match Token.after? text c.rest with
    | some rest => ⟨.matched [] (c.advance text rest), furthest⟩
    | none => ⟨.failed, furthest⟩
  | .token t, wanted, furthest, c => (Attempt.mk (scanAt t c) furthest).record wanted c
  | .phrase p, wanted, furthest, c => phrase p wanted furthest c
  | .seq a b, wanted, furthest, c =>
    match a.match_ phrase wanted furthest c with
    | ⟨.matched trees next, furthest⟩ =>
      match b.match_ phrase wanted furthest next.skip with
      | ⟨.matched more last, furthest⟩ => ⟨.matched (trees ++ more) last, furthest⟩
      | other => other
    | other => other
  | .alt a b, wanted, furthest, c =>
    match a.match_ phrase wanted furthest c with
    | ⟨.failed, furthest⟩ => b.match_ phrase wanted furthest c
    | other => other
  | .many a, wanted, furthest, c =>
    match a.match_ phrase wanted furthest c with
    | ⟨.matched trees next, furthest⟩ =>
      repeatFrom (a.match_ phrase) wanted (c.rest.length + 1) furthest trees next
    | ⟨.failed, furthest⟩ => ⟨.matched [] c, furthest⟩
    | ⟨.exhausted, furthest⟩ => ⟨.exhausted, furthest⟩
  | .optional a, wanted, furthest, c =>
    match a.match_ phrase wanted furthest c with
    | ⟨.failed, furthest⟩ => ⟨.matched [] c, furthest⟩
    | other => other
  | .ahead a, wanted, furthest, c =>
    match a.match_ phrase wanted furthest c with
    | ⟨.matched _ _, furthest⟩ => ⟨.matched [] c, furthest⟩
    | other => other
  | .without a, wanted, furthest, c =>
    match a.match_ phrase (!wanted) furthest c with
    | ⟨.matched _ _, furthest⟩ => ⟨.failed, furthest⟩
    | ⟨.failed, furthest⟩ => ⟨.matched [] c, furthest⟩
    | ⟨.exhausted, furthest⟩ => ⟨.exhausted, furthest⟩

/-- The parse tree of a phrase from the trees in it. -/
def Outcome.wrap (p : Phrase) (start : Nat) : Outcome → Outcome
  | .matched trees next => .matched [.node p ⟨start, next.offset⟩ trees] next
  | other => other

/-- The meaning of a phrase; the fuel bounds the depth of nested phrases. -/
def Phrase.match_ : Nat → Phrase → Matcher
  | 0, _, _, furthest, _ => ⟨.exhausted, furthest⟩
  | fuel + 1, p, wanted, furthest, c =>
    let a := p.pattern.match_ (Phrase.match_ fuel) wanted furthest c
    (Attempt.mk (a.outcome.wrap p c.offset) a.furthest).record wanted c

namespace Parse

/-- Fuel for a text: between two characters consumed, no phrase can contain itself. -/
def fuel (source : List Char) : Nat :=
  64 * (source.length + 1)

/-- Matches a whole script. -/
def script (source : List Char) : Attempt :=
  Phrase.match_ (fuel source) .script true 0 ⟨0, source⟩

end Parse

/-- The parse tree of a script, or the offset of the furthest failure. -/
def Tree.ofSource (source : List Char) : Except Nat Tree :=
  match Parse.script source with
  | ⟨.matched [tree] _, _⟩ => .ok tree
  | ⟨_, furthest⟩ => .error furthest

/-- The line and the column of a byte offset, both counted from one.  A line ends after a line feed,
and a column is one character. -/
def lineColumn (source : List Char) (offset : Nat) : Nat × Nat :=
  let before := Source.takeBytes offset source
  (1 + before.count '\n', 1 + (before.reverse.takeWhile (· != '\n')).length)

end ScriptEngine
