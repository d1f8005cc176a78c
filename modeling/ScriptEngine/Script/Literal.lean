import ScriptEngine.Number.Numeral
import ScriptEngine.Number.Style
import ScriptEngine.Text.Units

/-!
# Literals

The values of string literals, the keys of object literals and the directives at the head of a body.

## Main definitions

* `decodeEscapes` : the text that the body of a string literal stands for.
* `stringLiteralValue` : the value of a string literal with its quotes.
* `numericKey` : the property key of a numeric literal.
* `hasStrictDirective` : whether the leading statements of a body ask for strict mode.
-/

namespace ScriptEngine

/-! ### String literals -/

/-- Reads up to `n` hexadecimal digits; the value is there only if all of them are. -/
def readHex : Nat → Nat → List Char → Option Nat × List Char
  | 0, acc, cs => (some acc, cs)
  | _ + 1, _, [] => (none, [])
  | n + 1, acc, c :: cs =>
    match hexDigit? c with
    | some d => readHex n (16 * acc + d) cs
    | none => (none, c :: cs)

theorem length_readHex (n acc : Nat) (cs : List Char) :
    (readHex n acc cs).2.length ≤ cs.length := by
  fun_induction readHex n acc cs with
  | case1 => simp
  | case2 => simp
  | case3 n acc c cs d h ih => simp; omega
  | case4 => simp

/-- The low half of a surrogate pair, written as a second escape directly after the first. -/
def lowSurrogate? : List Char → Option (Nat × List Char)
  | '\\' :: 'u' :: cs =>
    match readHex 4 0 cs with
    | (some low, rest) => if 0xDC00 ≤ low && low ≤ 0xDFFF then some (low, rest) else none
    | (none, _) => none
  | _ => none

theorem length_lowSurrogate? {cs : List Char} {low : Nat} {rest : List Char}
    (h : lowSurrogate? cs = some (low, rest)) : rest.length ≤ cs.length := by
  unfold lowSurrogate? at h
  split at h
  · next cs =>
    have := length_readHex 4 0 cs
    split at h
    · next v r hr => rw [hr] at this; split at h <;> simp_all; omega
    · simp at h
  · simp at h

/-- The character of a code written in an escape, with the text after it.  A high surrogate joins a
low one that follows; alone, a surrogate is the replacement character. -/
def escapedCode (code : Nat) (rest : List Char) : Char × List Char :=
  if 0xD800 ≤ code && code ≤ 0xDBFF then
    match lowSurrogate? rest with
    | some (low, tail) =>
      (Text.charOfUnit (0x10000 + (code - 0xD800) * 0x400 + (low - 0xDC00)), tail)
    | none => (Text.replacement, rest)
  else (Text.charOfUnit code, rest)

theorem length_escapedCode (code : Nat) (rest : List Char) :
    (escapedCode code rest).2.length ≤ rest.length := by
  unfold escapedCode
  split
  · split
    · next h => exact length_lowSurrogate? h
    · simp
  · simp

/-- An escape of a single letter. -/
def letterEscape? : Char → Option Char
  | 'n' => some '\n'
  | 't' => some '\t'
  | 'r' => some '\r'
  | 'b' => some '\x08'
  | 'f' => some '\x0C'
  | 'v' => some '\x0B'
  | _ => none

/-- What an escape stands for, given the character after the backslash and the text after that, and
the text after the escape. -/
def decodeEscape (e : Char) (rest : List Char) : List Char × List Char :=
  match letterEscape? e with
  | some c => ([c], rest)
  | none =>
    if e == '0' && !rest.head?.any Char.isDigit then (['\x00'], rest)
    else if e == 'x' then
      match readHex 2 0 rest with
      | (some code, tail) => ([Text.charOfUnit code], tail)
      | (none, tail) => (['x'], tail)
    else if e == 'u' then
      match readHex 4 0 rest with
      | (some code, tail) =>
        let (c, last) := escapedCode code tail
        ([c], last)
      | (none, tail) => (['u'], tail)
    else if e == '\r' then
      match rest with
      | '\n' :: tail => ([], tail)
      | tail => ([], tail)
    else if e == '\n' || e == '\u2028' || e == '\u2029' then ([], rest)
    else ([e], rest)

theorem length_decodeEscape (e : Char) (rest : List Char) :
    (decodeEscape e rest).2.length ≤ rest.length := by
  unfold decodeEscape
  split
  · simp
  · split
    · simp
    · split
      · have := length_readHex 2 0 rest
        split <;> simp_all
      · split
        · have := length_readHex 4 0 rest
          split
          · next code tail h =>
            have h' := length_escapedCode code tail
            rw [h] at this
            exact Nat.le_trans h' this
          · next h => simp_all
        · split
          · split <;> simp
          · split <;> simp

/-- The text that the body of a string literal stands for. -/
def decodeEscapes (cs : List Char) : List Char :=
  match cs with
  | [] => []
  | ['\\'] => []
  | '\\' :: e :: rest =>
    (decodeEscape e rest).1 ++ decodeEscapes (decodeEscape e rest).2
  | c :: rest => c :: decodeEscapes rest
termination_by cs.length
decreasing_by
  · have := length_decodeEscape e rest; simp; omega
  · simp

/-- The value of a string literal, given with its quotes. -/
def stringLiteralValue (text : List Char) : String :=
  String.ofList (decodeEscapes (text.drop 1).dropLast)

/-! ### Keys -/

/-- The property key of a numeric literal: an integer below `10 ^ 21` as a 64-bit integer, anything
else by its digits at their places. -/
def numericKey (x : Float) : String :=
  match (Binary64.ofFloat x).integerPart? with
  | some i => if i.natAbs < Nat.pow 10 21 then toString (min i 0x7FFFFFFFFFFFFFFF) else plainText x
  | none => plainText x

/-! ### Directives -/

/-- The text of a statement without surrounding blanks and trailing semicolons. -/
def directiveText (statement : List Char) : List Char :=
  Text.trim Text.isWhiteSpace
    (Text.trimEnd (· == ';') (Text.trim Text.isWhiteSpace statement))

/-- The text between the quotes of a statement that is one quoted text, with no such quote
inside. -/
def quotedText? (text : List Char) : Option (List Char) :=
  match text with
  | q :: rest =>
    if (q == '"' || q == '\'') && rest.getLast? == some q && !rest.dropLast.contains q then
      some rest.dropLast
    else none
  | [] => none

/-- Whether the leading directives among the texts of statements ask for strict mode.  An entry that
is absent is a statement of another kind. -/
def hasStrictDirective : List (Option (List Char)) → Bool
  | some statement :: rest =>
    match quotedText? (directiveText statement) with
    | some text => text == "use strict".toList || hasStrictDirective rest
    | none => false
  | _ => false

end ScriptEngine
