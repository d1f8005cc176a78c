import ScriptEngine.Proofs.Grammar.Lexeme
import ScriptEngine.Proofs.Grammar.Reading

/-!
# Lexical rules

The rules of the tokens, and the rule of the blanks between them.  They are always decided, as the
recognisers say: whatever they repeat takes a character in each round.

## Main definitions

* `Token.lexeme` : the rule of a token.
* `Lexeme.blanks` : the rule of blanks and comments.

## Main statements

* `Token.scans_lexeme` : the rule of a token is decided as its recogniser says.
* `Lexeme.run_blanks` : the rule of blanks is decided as `skipBlanks` says.
* `Token.progress_lexeme`, `Lexeme.progress_blanks` : whatever these rules repeat takes a character.
-/

namespace ScriptEngine

/-! ### The rules -/

namespace Lexeme

/-- The first of several expressions that matches. -/
def choice : List Lexeme → Lexeme
  | [] => .one fun _ => false
  | a :: rest => .alt a (choice rest)

/-- The given text. -/
def text (s : String) : Lexeme := .chars s.toList

/-- One of the given characters. -/
def anyOf (cs : List Char) : Lexeme := choice (cs.map fun c => .chars [c])

/-- Any character at which an expression does not match. -/
def except (a : Lexeme) : Lexeme := .seq (.without a) (.one fun _ => true)

/-- An expression as often as possible, and at least once. -/
def plus (a : Lexeme) : Lexeme := .seq a (.many a)

def identifierStart : Lexeme := .one Text.isIdentifierStart

def identifierPart : Lexeme := .one Text.isIdentifierPart

/-- One of the given words, with no identifier character after it. -/
def words (ws : List (List Char)) : Lexeme :=
  .seq (choice (ws.map .chars)) (.without identifierPart)

/-- A text that none of the given characters follows. -/
def textNot (s next : String) : Lexeme := .seq (text s) (.without (anyOf next.toList))

def name : Lexeme := .seq identifierStart (.many identifierPart)

def digit : Lexeme := .one Char.isDigit

def hexNumeral : Lexeme :=
  .seq (.alt (text "0x") (text "0X")) (plus (.one Token.isHexDigit))

def exponentPart : Lexeme :=
  .seq (anyOf ['e', 'E']) (.seq (.optional (anyOf ['+', '-'])) (plus digit))

def decimalNumeral : Lexeme :=
  .seq
    (.alt (.seq (plus digit) (.optional (.seq (text ".") (.many digit))))
      (.seq (text ".") (plus digit)))
    (.optional exponentPart)

/-- A backslash and the character after it, or the line end of two characters after it. -/
def escape : Lexeme := .seq (text "\\") (.alt (text "\r\n") (.one fun _ => true))

def quoted (quote : Char) : Lexeme :=
  .seq (.chars [quote])
    (.seq (.many (.alt escape (except (anyOf [quote, '\\', '\n', '\r'])))) (.chars [quote]))

/-- A backslash and the character after it on the same line. -/
def escapeInLine : Lexeme := .seq (text "\\") (except (anyOf ['\n', '\r']))

/-- The inside of a class in a regular expression, and the bracket that closes it. -/
def classRest : Lexeme :=
  .seq (.many (.alt escapeInLine (except (anyOf [']', '\\', '\n', '\r'])))) (text "]")

def regularExpressionChar : Lexeme :=
  .alt escapeInLine
    (.alt (.seq (text "[") classRest) (except (anyOf ['/', '\\', '[', '\n', '\r'])))

def regularExpression : Lexeme :=
  .seq (text "/")
    (.seq (.without (anyOf ['*', '/']))
      (.seq (plus regularExpressionChar) (.seq (text "/") (.many identifierPart))))

def whitespace : Lexeme := .one isBlank

def comment : Lexeme :=
  .alt (.seq (text "/*") (.seq (.many (except (text "*/"))) (text "*/")))
    (.seq (text "//") (.many (except (anyOf ['\n', '\r']))))

/-- What is skipped between the parts of a sequence and between repetitions. -/
def blanks : Lexeme := .seq (.many whitespace) (.many (.seq comment (.many whitespace)))

end Lexeme

open Lexeme in
/-- The rule of a token. -/
def Token.lexeme : Token → Lexeme
  | .identifier => .seq (.without (words reservedWords)) name
  | .identifierName => name
  | .keyword k => words [k.text.toList]
  | .nullLiteral => words ["null".toList]
  | .booleanLiteral => words ["true".toList, "false".toList]
  | .numericLiteral =>
    .seq (.alt hexNumeral decimalNumeral) (.without (.alt identifierStart digit))
  | .stringLiteral => .alt (quoted '"') (quoted '\'')
  | .regularExpressionLiteral => regularExpression
  | .postfixOperator => choice [text "++", text "--"]
  | .unaryOperator =>
    choice [text "++", text "--", words ["delete".toList, "void".toList, "typeof".toList],
      text "+", text "-", text "~", text "!"]
  | .multiplicativeOperator => .seq (anyOf ['*', '/', '%']) (.without (anyOf ['=']))
  | .additiveOperator => choice [textNot "+" "+=", textNot "-" "-="]
  | .shiftOperator => choice [textNot ">>>" "=", textNot "<<" "=", textNot ">>" ">="]
  | .relationalOperator =>
    choice [text "<=", text ">=", textNot "<" "<", textNot ">" ">", words ["instanceof".toList],
      words ["in".toList]]
  | .equalityOperator => choice [text "===", text "!==", text "==", text "!="]
  | .bitwiseAndOperator => textNot "&" "&="
  | .bitwiseXorOperator => textNot "^" "="
  | .bitwiseOrOperator => textNot "|" "|="
  | .logicalAndOperator => text "&&"
  | .logicalOrOperator => text "||"
  | .assignmentOperator =>
    choice [textNot "=" "=", text "+=", text "-=", text "*=", text "/=", text "%=", text "<<=",
      text ">>>=", text ">>=", text "&=", text "|=", text "^="]

/-- Whatever the rule of a token repeats takes a character. -/
theorem Token.progress_lexeme (t : Token) : ∀ a ∈ t.lexeme.repeated, a.nullable = false := by
  cases t with
  | keyword k => simp [lexeme, Lexeme.words, Lexeme.choice, Lexeme.repeated, Lexeme.identifierPart]
  | _ => decide

/-- Whatever the rule of blanks repeats takes a character. -/
theorem Lexeme.progress_blanks : ∀ a ∈ blanks.repeated, a.nullable = false := by
  decide

/-! ### Texts and words -/

namespace Token

theorem after?_append (p rest : List Char) : after? p (p ++ rest) = some rest := by
  induction p with
  | nil => rfl
  | cons c p ih => simpa [after?] using ih

theorem after?_eq_none_iff {p cs : List Char} : after? p cs = none ↔ ¬ p <+: cs := by
  rw [Option.eq_none_iff_forall_ne_some]
  constructor
  · rintro h ⟨rest, rfl⟩
    exact h rest (after?_append p rest)
  · rintro h rest hrest
    exact h ⟨rest, (after?_eq_some hrest).symm⟩

/-- The first of several texts that stands at the head. -/
def firstOf (ws : List (List Char)) : Scan := fun cs =>
  ws.findSome? fun w => (after? w cs).map (w, ·)

theorem firstOf_cons (w : List Char) (ws : List (List Char)) (cs : List Char) :
    firstOf (w :: ws) cs = ((after? w cs).map (w, ·)).or (firstOf ws cs) := by
  rw [firstOf, List.findSome?_cons]
  cases (after? w cs).map (w, ·) <;> rfl

theorem of_firstOf {ws : List (List Char)} {cs w rest : List Char}
    (h : firstOf ws cs = some (w, rest)) :
    cs = w ++ rest ∧ ∃ before after, ws = before ++ w :: after ∧ ∀ v ∈ before, ¬ v <+: cs := by
  obtain ⟨before, v, after, rfl, hv, hbefore⟩ := List.findSome?_eq_some_iff.mp h
  obtain ⟨tail, htail, hv⟩ := Option.map_eq_some_iff.mp hv
  cases hv
  refine ⟨after?_eq_some htail, before, after, rfl, fun v hv => ?_⟩
  exact after?_eq_none_iff.mp (Option.map_eq_none_iff.mp (hbefore v hv))

/-- Words of identifier characters of which none is the beginning of a later one are found by
looking at the whole first word of a text. -/
theorem scanWord_eq_firstOf {ws : List (List Char)}
    (hident : ∀ w ∈ ws, ∀ c ∈ w, Text.isIdentifierPart c = true)
    (hws : ws.Pairwise fun v w => ¬ v <+: w) (cs : List Char) :
    scanWord ws cs = (firstOf ws cs).filter fun p => !p.2.head?.any Text.isIdentifierPart := by
  unfold scanWord
  cases hfirst : firstOf ws cs with
  | none =>
    have hnot : word cs ∉ ws := fun hmem => by
      have hnone := List.findSome?_eq_none_iff.mp hfirst _ hmem
      exact after?_eq_none_iff.mp (Option.map_eq_none_iff.mp hnone) (List.takeWhile_prefix _)
    simp [hnot]
  | some p =>
    obtain ⟨w, rest⟩ := p
    obtain ⟨rfl, before, after, rfl, hbefore⟩ := of_firstOf hfirst
    have hw : ∀ c ∈ w, Text.isIdentifierPart c = true := hident w (by simp)
    have hword : word (w ++ rest) = w ++ word rest := List.takeWhile_append_of_pos hw
    have hafter : afterWord (w ++ rest) = afterWord rest := List.dropWhile_append_of_pos hw
    cases hrest : rest.head?.any Text.isIdentifierPart with
    | false =>
      have hempty : word rest = [] ∧ afterWord rest = rest := by
        cases rest with
        | nil => exact ⟨rfl, rfl⟩
        | cons c rest => simpa [word, afterWord] using hrest
      simp [hword, hafter, hempty, hrest, Option.filter]
    | true =>
      -- the first word is longer than `w`, so it stands neither before nor after `w` in the list
      have hne : word rest ≠ [] := by
        cases rest with
        | nil => cases hrest
        | cons c rest => simpa [word, List.takeWhile_cons] using hrest
      have hnot : word (w ++ rest) ∉ before ++ w :: after := by
        intro hmem
        rcases List.mem_append.mp hmem with hmem | hmem
        · exact hbefore _ hmem (List.takeWhile_prefix _)
        · rcases List.mem_cons.mp hmem with hmem | hmem
          · rw [hword] at hmem
            exact hne (List.append_right_eq_self.mp hmem)
          · have := (List.pairwise_cons.mp (List.pairwise_append.mp hws).2.1).1 _ hmem
            exact this (hword ▸ List.prefix_append ..)
      simp [hnot, hrest, Option.filter]

theorem scanOperator_append (l m : List Spelling) (cs : List Char) :
    scanOperator (l ++ m) cs = (scanOperator l cs).or (scanOperator m cs) := by
  induction l with
  | nil => rfl
  | cons s l ih =>
    simp only [List.cons_append, scanOperator]
    split
    · split
      · rfl
      · exact ih
    · exact ih

/-- Texts of which none is the beginning of another can be told apart before the look at what
follows. -/
theorem scanOperator_eq_firstOf (follow : Follow) {ws : List (List Char)}
    (hws : ws.Pairwise fun v w => ¬ v <+: w ∧ ¬ w <+: v) (cs : List Char) :
    scanOperator (ws.map (⟨·, follow⟩)) cs = (firstOf ws cs).filter fun p => follow.allows p.2 := by
  induction ws with
  | nil => rfl
  | cons w ws ih =>
    obtain ⟨hw, hws⟩ := List.pairwise_cons.mp hws
    rw [firstOf_cons, List.map_cons, scanOperator]
    cases hafter : after? w cs with
    | none => exact ih hws
    | some rest =>
      cases hallows : follow.allows rest with
      | true => simp [hallows, Option.filter]
      | false =>
        -- no later text stands at the head, as it would be longer or shorter than this one
        have hlater : firstOf ws cs = none := by
          refine List.findSome?_eq_none_iff.mpr fun v hv => ?_
          refine Option.map_eq_none_iff.mpr (after?_eq_none_iff.mpr fun hprefix => ?_)
          have hhead : w <+: cs := ⟨rest, (after?_eq_some hafter).symm⟩
          exact (List.prefix_or_prefix_of_prefix hhead hprefix).elim (hw v hv).1 (hw v hv).2
        rw [ih hws, hlater]
        simp [hallows, Option.filter]

end Token

namespace Lexeme

open Token (after? Scan Spelling Follow scanOperator firstOf eq_append_of_run)

theorem isSome_scanOne (p : Char → Bool) (cs : List Char) :
    (scanOne p cs).isSome = cs.head?.any p := by
  cases cs with
  | nil => rfl
  | cons c cs =>
    simp only [scanOne, List.head?_cons, Option.any_some]
    split <;> simp_all

/-! ### Recognisers of parts -/

/-- Recognises a backslash and what it takes with it. -/
def scanEscape : Scan
  | '\\' :: '\r' :: '\n' :: rest => some (['\\', '\r', '\n'], rest)
  | '\\' :: c :: rest => some (['\\', c], rest)
  | _ => none

/-- Recognises a backslash and the character after it on the same line. -/
def scanEscapeInLine : Scan
  | '\\' :: c :: rest => if Token.isLineEnd c then none else some (['\\', c], rest)
  | _ => none

/-- Recognises the inside of a class in a regular expression and the bracket that closes it. -/
def scanClassRest : Scan
  | [] => none
  | '\\' :: [] => none
  | '\\' :: c :: rest =>
    if Token.isLineEnd c then none else pushAll ['\\', c] (scanClassRest rest)
  | c :: rest =>
    if Token.isLineEnd c then none
    else if c == ']' then some ([c], rest)
    else pushAll [c] (scanClassRest rest)

/-- Recognises one character of the body of a regular expression, or one class. -/
def scanRegularExpressionChar : Scan := fun cs =>
  (scanEscapeInLine cs).or
    (((after? "[".toList cs).bind fun rest => pushAll ['['] (scanClassRest rest)).or
    (scanOne (fun c => !(['/', '\\', '[', '\n', '\r'].contains c)) cs))

/-- Recognises what is left of a comment in stars. -/
def scanStars : Scan
  | [] => none
  | '*' :: '/' :: rest => some (['*', '/'], rest)
  | c :: rest => pushAll [c] (scanStars rest)

/-- Recognises a comment. -/
def scanComment : Scan
  | '/' :: '*' :: rest => pushAll ['/', '*'] (scanStars rest)
  | '/' :: '/' :: rest => pushAll ['/', '/'] (some (Token.run (fun c => !Token.isLineEnd c) rest))
  | _ => none

namespace Scans

variable {a b : Lexeme} {f g : Scan}

theorem choice_nil : (choice []).Scans fun _ => none := by
  intro cs
  cases cs <;> rfl

theorem choice_cons {l : List Lexeme} (ha : a.Scans f) (hl : (choice l).Scans g) :
    (choice (a :: l)).Scans fun cs => (f cs).or (g cs) :=
  ha.alt hl

theorem choice_chars (ws : List (List Char)) : (choice (ws.map .chars)).Scans (firstOf ws) := by
  induction ws with
  | nil => exact choice_nil
  | cons w ws ih =>
    exact (choice_cons (.chars w) ih).congr fun cs => (Token.firstOf_cons w ws cs).symm

theorem anyOf (cs : List Char) : (anyOf cs).Scans (scanOne cs.contains) := by
  induction cs with
  | nil => exact choice_nil.congr fun ds => by cases ds <;> rfl
  | cons c cs ih =>
    refine (choice_cons (.chars [c]) ih).congr fun ds => ?_
    cases ds with
    | nil => rfl
    | cons d ds =>
      by_cases h : c = d
      · subst h
        simp [scanOne, after?]
      · simp [scanOne, after?, h, Ne.symm h]

/-- An expression that another one must not follow. -/
theorem seq_without (ha : a.Scans f) (hb : b.Scans g) :
    (Lexeme.seq a (.without b)).Scans fun cs => (f cs).filter fun p => !(g p.2).isSome := by
  refine (ha.seq hb.without).congr fun cs => ?_
  cases f cs with
  | none => rfl
  | some p => cases h : (g p.2).isSome <;> simp [h, pushAll, Option.filter]

theorem except (ha : a.Scans f) :
    (except a).Scans fun cs => if (f cs).isSome then none else scanOne (fun _ => true) cs := by
  refine (ha.without.seq (.one _)).congr fun cs => ?_
  cases h : (f cs).isSome with
  | true => rfl
  | false => cases cs <;> rfl

theorem except_anyOf (cs : List Char) :
    (Lexeme.except (Lexeme.anyOf cs)).Scans (scanOne fun c => !cs.contains c) := by
  refine (Scans.anyOf cs).except.congr fun ds => ?_
  cases ds with
  | nil => rfl
  | cons d ds => by_cases h : d ∈ cs <;> simp [scanOne, h]

/-! ### Words and operators -/

theorem words {ws : List (List Char)} (hident : ws.all (·.all Text.isIdentifierPart) = true)
    (hws : ws.Pairwise fun v w => ¬ v <+: w) : (words ws).Scans (Token.scanWord ws) := by
  have hident : ∀ w ∈ ws, ∀ c ∈ w, Text.isIdentifierPart c = true := by
    simpa only [List.all_eq_true] using hident
  refine ((choice_chars ws).seq_without (.one Text.isIdentifierPart)).congr fun cs => ?_
  rw [Token.scanWord_eq_firstOf hident hws]
  simp only [isSome_scanOne]

/-- Operators that are words. -/
theorem operatorWords {ws : List (List Char)} (hws : ws.Pairwise fun v w => ¬ v <+: w ∧ ¬ w <+: v) :
    (Lexeme.words ws).Scans (scanOperator (ws.map (⟨·, .wordEnd⟩))) := by
  refine ((choice_chars ws).seq_without (.one Text.isIdentifierPart)).congr fun cs => ?_
  rw [Token.scanOperator_eq_firstOf .wordEnd hws]
  simp only [isSome_scanOne, Follow.allows]

/-- Operators with the same condition on the character after them. -/
theorem operatorsNot {ws : List (List Char)} (hws : ws.Pairwise fun v w => ¬ v <+: w ∧ ¬ w <+: v)
    (next : List Char) :
    (Lexeme.seq (choice (ws.map .chars)) (.without (Lexeme.anyOf next))).Scans
      (scanOperator (ws.map (⟨·, .noneOf next⟩))) := by
  refine ((choice_chars ws).seq_without (Scans.anyOf next)).congr fun cs => ?_
  rw [Token.scanOperator_eq_firstOf (.noneOf next) hws]
  simp only [isSome_scanOne, Follow.allows]

theorem text (s : String) : (text s).Scans (scanOperator [Token.symbol s]) := by
  refine (Scans.chars s.toList).congr fun cs => ?_
  simp only [scanOperator, Token.symbol, Follow.allows]
  cases after? s.toList cs <;> rfl

theorem textNot (s next : String) :
    (textNot s next).Scans (scanOperator [Token.symbolNot s next]) := by
  refine ((Scans.chars s.toList).seq_without (Scans.anyOf next.toList)).congr fun cs => ?_
  simp only [isSome_scanOne, scanOperator, Token.symbolNot, Follow.allows]
  cases after? s.toList cs with
  | none => rfl
  | some rest => cases h : rest.head?.any next.toList.contains <;> simp [h, Option.filter]

theorem noOperator : (choice []).Scans (scanOperator []) :=
  choice_nil

/-- A choice between operators. -/
theorem operator {l : List Lexeme} {ss ts : List Spelling} (ha : a.Scans (scanOperator ss))
    (hl : (choice l).Scans (scanOperator ts)) : (choice (a :: l)).Scans (scanOperator (ss ++ ts)) :=
  (choice_cons ha hl).congr fun cs => (Token.scanOperator_append ss ts cs).symm

/-! ### Numerals -/

/-- Characters of a class, as many as there are. -/
theorem many_scanOne {p : Char → Bool} (ha : a.Scans (scanOne p)) (hnull : a.nullable = false) :
    (Lexeme.many a).Scans fun cs => some (Token.run p cs) := by
  refine ha.many hnull fun cs => ?_
  cases cs with
  | nil => rfl
  | cons c cs => cases h : p c <;> simp [scanOne, Token.run, pushAll, h]

theorem many_one (p : Char → Bool) : (Lexeme.many (.one p)).Scans fun cs => some (Token.run p cs) :=
  many_scanOne (.one p) rfl

/-- A run of at least one character of a class. -/
theorem plus_one (p : Char → Bool) :
    (plus (.one p)).Scans fun cs => (some (Token.run p cs)).filter fun r => !r.1.isEmpty := by
  refine ((Scans.one p).seq (many_one p)).congr fun cs => ?_
  cases cs with
  | nil => rfl
  | cons c cs => cases h : p c <;> simp [scanOne, Token.run, pushAll, h, Option.filter]

theorem hexNumeral : hexNumeral.Scans Token.scanHex := by
  refine (((Scans.chars _).alt (.chars _)).seq (plus_one _)).congr fun cs => ?_
  unfold Token.scanHex
  split
  · next x rest =>
    by_cases hx : x = 'x' ∨ x = 'X'
    · have hbind : ((after? "0x".toList ('0' :: x :: rest)).map ("0x".toList, ·)).or
          ((after? "0X".toList ('0' :: x :: rest)).map ("0X".toList, ·)) =
            some (['0', x], rest) := by
        rcases hx with rfl | rfl <;> rfl
      rw [hbind, if_pos (by simpa using hx)]
      cases hrun : Token.run Token.isHexDigit rest with
      | mk digits tail => cases digits <;> simp [pushAll, Option.filter, hrun]
    · rw [if_neg (by simpa using hx)]
      rw [not_or] at hx
      simp [after?, Ne.symm hx.1, Ne.symm hx.2]
  · next hnot =>
    cases cs with
    | nil => rfl
    | cons c cs =>
      cases cs with
      | nil => simp [after?]
      | cons x rest =>
        have : c ≠ '0' := fun h => hnot x rest (h ▸ rfl)
        simp [after?, this.symm]

theorem exponentPart :
    (Lexeme.optional Lexeme.exponentPart).Scans fun cs => some (Token.exponentPart cs) := by
  refine ((Scans.anyOf _).seq ((Scans.anyOf _).optional.seq (plus_one _))).optional.congr
    fun cs => ?_
  cases cs with
  | nil => rfl
  | cons e rest =>
    have hdigits (sign digits : List Char) :
        ((pushAll [e] (pushAll sign
          ((some (Token.run Char.isDigit digits)).filter fun r => !r.1.isEmpty))).getD ([],
            e :: rest)) =
        Token.exponentDigits e rest sign digits := by
      unfold Token.exponentDigits
      cases hrun : Token.run Char.isDigit digits with
      | mk ds tail => cases ds <;> simp [pushAll, Option.filter]
    by_cases he : e = 'e' ∨ e = 'E'
    · have hone : scanOne ['e', 'E'].contains (e :: rest) = some ([e], rest) := by
        rcases he with rfl | rfl <;> rfl
      rw [hone]
      have hmem : (e == 'e' || e == 'E') = true := by simpa using he
      simp only [Token.exponentPart, hmem, if_true, Option.bind_some]
      cases rest with
      | nil => rfl
      | cons s digits =>
        by_cases hplus : s = '+'
        · subst hplus
          exact congrArg some (hdigits ['+'] digits)
        · by_cases hminus : s = '-'
          · subst hminus
            exact congrArg some (hdigits ['-'] digits)
          · have hnone : scanOne ['+', '-'].contains (s :: digits) = none := by
              simp [scanOne, hplus, hminus]
            rw [hnone]
            refine congrArg some ((hdigits [] (s :: digits)).trans ?_)
            unfold Token.exponentDigits
            split <;> rename_i h <;> revert h <;> split <;> simp_all
    · have hone : scanOne ['e', 'E'].contains (e :: rest) = none := by
        simpa [scanOne] using he
      have hmem : (e == 'e' || e == 'E') = false := by simpa using he
      rw [hone]
      simp [Token.exponentPart, hmem]

theorem significand :
    (Lexeme.alt
      (.seq (plus digit) (.optional (.seq (Lexeme.text ".") (.many digit))))
      (.seq (Lexeme.text ".") (plus digit))).Scans Token.significand := by
  have hdigits := plus_one Char.isDigit
  have hpoint := (Scans.chars ".".toList)
  refine ((hdigits.seq (hpoint.seq (many_one _)).optional).alt (hpoint.seq hdigits)).congr
    fun cs => ?_
  unfold Token.significand
  cases hrun : Token.run Char.isDigit cs with
  | mk whole tail =>
    cases whole with
    | nil =>
      obtain rfl : cs = tail := eq_append_of_run hrun
      cases cs with
      | nil => rfl
      | cons c cs =>
        by_cases hc : c = '.'
        · subst hc
          cases hrun : Token.run Char.isDigit cs with
          | mk fraction tail =>
            cases fraction <;> simp [after?, pushAll, Option.filter, hrun]
        · simp [after?, hc, Ne.symm hc, Option.filter]
    | cons d whole =>
      cases tail with
      | nil => simp [after?, pushAll, Option.filter]
      | cons c cs =>
        by_cases hc : c = '.'
        · subst hc
          simp [after?, pushAll, Option.filter]
        · simp [after?, hc, Ne.symm hc, pushAll, Option.filter]

theorem decimalNumeral : decimalNumeral.Scans Token.scanDecimal := by
  refine (significand.seq exponentPart).congr fun cs => ?_
  unfold Token.scanDecimal
  cases Token.significand cs <;> rfl

theorem number :
    (Lexeme.seq (.alt Lexeme.hexNumeral Lexeme.decimalNumeral)
      (.without (.alt identifierStart digit))).Scans Token.scanNumber := by
  refine ((hexNumeral.alt decimalNumeral).seq_without ((Scans.one _).alt (.one _))).congr
    fun cs => ?_
  unfold Token.scanNumber
  cases (Token.scanHex cs).or (Token.scanDecimal cs) with
  | none => rfl
  | some p =>
    obtain ⟨text, rest⟩ := p
    cases rest with
    | nil => rfl
    | cons c rest =>
      cases hstart : Text.isIdentifierStart c <;> cases hdigit : c.isDigit <;>
        simp [Option.filter, scanOne, hstart, hdigit]

/-! ### Literals between marks -/

theorem push_eq (c : Char) (o : Option (List Char × List Char)) :
    Token.push c o = pushAll [c] o := by
  cases o <;> rfl

theorem escape : escape.Scans scanEscape := by
  refine ((Scans.chars _).seq ((Scans.chars _).alt (.one _))).congr fun cs => ?_
  fun_cases scanEscape cs with
  | case1 rest => rfl
  | case2 c rest hnot =>
    have hline : after? "\r\n".toList (c :: rest) = none := by
      refine Token.after?_eq_none_iff.mpr ?_
      rintro ⟨rest, hrest⟩
      cases hrest
      exact hnot rest rfl rfl
    have hbackslash : after? "\\".toList ('\\' :: c :: rest) = some (c :: rest) := rfl
    simp only [hbackslash, Option.map_some, Option.bind_some, hline]
    rfl
  | case3 _ _ hnot =>
    cases cs with
    | nil => rfl
    | cons c cs =>
      by_cases hc : c = '\\'
      · subst hc
        cases cs with
        | nil => rfl
        | cons d cs => exact (hnot d cs rfl).elim
      · simp [after?, Ne.symm hc]

theorem scanEscape_eq_none {c : Char} {cs : List Char}
    (h : ∀ d rest, c = '\\' → cs = d :: rest → False) :
    scanEscape (c :: cs) = none := by
  unfold scanEscape
  split
  · next heq => cases heq; exact (h _ _ rfl rfl).elim
  · next heq => cases heq; exact (h _ _ rfl rfl).elim
  · rfl

theorem quoted {q : Char} (hq : q ∉ ['\\', '\n', '\r']) :
    (quoted q).Scans fun cs => ((after? [q] cs).map ([q], ·)).bind fun p =>
      pushAll p.1 (Token.stringTail q p.2) := by
  simp only [List.mem_cons, List.not_mem_nil, or_false, not_or] at hq
  refine (Scans.chars [q]).seq
    ((escape.alt (except_anyOf _)).many_seq rfl (.chars [q]) fun cs => ?_)
  fun_cases Token.stringTail q cs with
  | case1 => rfl
  | case2 cs => simp [scanEscape, push_eq]
  | case3 c cs hline => simp [scanEscape, push_eq]
  | case4 c cs hnot _ hquote =>
    simp only [beq_iff_eq] at hquote
    subst hquote
    simp [after?, scanEscape, scanOne, hq.1]
  | case5 c cs hnot hline hquote hend =>
    have hquote : c ≠ q := by simpa using hquote
    have hone : scanOne (fun c => !([q, '\\', '\n', '\r'].contains c)) (c :: cs) = none := by
      simp only [Token.isLineEnd, Bool.or_eq_true, beq_iff_eq] at hend
      simp [scanOne, hquote, hend]
    rw [scanEscape_eq_none hline, hone]
    simp [after?, hquote.symm]
  | case6 c cs hnot hline hquote hend =>
    have hquote : c ≠ q := by simpa using hquote
    have hone : scanOne (fun c => !([q, '\\', '\n', '\r'].contains c)) (c :: cs) =
        some ([c], cs) := by
      simp only [Token.isLineEnd, Bool.or_eq_true, beq_iff_eq, not_or] at hend
      simp [scanOne, hquote, hend]
    rw [scanEscape_eq_none hline, hone]
    exact push_eq c _

theorem string :
    (Lexeme.alt (Lexeme.quoted '"') (Lexeme.quoted '\'')).Scans Token.scanString := by
  refine ((quoted (by decide)).alt (quoted (by decide))).congr fun cs => ?_
  unfold Token.scanString
  split
  · simp [after?, push_eq]
  · simp [after?, push_eq]
  · next hdouble hsingle =>
    cases cs with
    | nil => rfl
    | cons c cs =>
      have hdouble : c ≠ '"' := fun h => hdouble cs (h ▸ rfl)
      have hsingle : c ≠ '\'' := fun h => hsingle cs (h ▸ rfl)
      simp [after?, hdouble.symm, hsingle.symm]

theorem escapeInLine : escapeInLine.Scans scanEscapeInLine := by
  refine ((Scans.chars _).seq (except_anyOf _)).congr fun cs => ?_
  have hbackslash (cs : List Char) : after? "\\".toList ('\\' :: cs) = some cs := rfl
  fun_cases scanEscapeInLine cs with
  | case1 c rest hline =>
    simp only [Token.isLineEnd, Bool.or_eq_true, beq_iff_eq] at hline
    simp only [hbackslash, Option.map_some, Option.bind_some]
    simp [scanOne, hline]
  | case2 c rest hline =>
    simp only [Token.isLineEnd, Bool.or_eq_true, beq_iff_eq, not_or] at hline
    simp only [hbackslash, Option.map_some, Option.bind_some]
    simp [scanOne, hline]
  | case3 _ hnot =>
    cases cs with
    | nil => rfl
    | cons c cs =>
      by_cases hc : c = '\\'
      · subst hc
        cases cs with
        | nil => rfl
        | cons d cs => exact (hnot d cs rfl).elim
      · simp [after?, Ne.symm hc]

theorem scanEscapeInLine_eq_none {c : Char} {cs : List Char} (h : c ≠ '\\') :
    scanEscapeInLine (c :: cs) = none := by
  unfold scanEscapeInLine
  split
  · next heq => cases heq; exact (h rfl).elim
  · rfl

/-- A character is no backslash if it is neither the last one nor followed by another. -/
theorem ne_backslash {c : Char} {cs : List Char} (hlast : c = '\\' → cs = [] → False)
    (hnext : ∀ d rest, c = '\\' → cs = d :: rest → False) : c ≠ '\\' := by
  intro hc
  cases cs with
  | nil => exact hlast hc rfl
  | cons d rest => exact hnext d rest hc rfl

theorem classRest : classRest.Scans scanClassRest := by
  refine (escapeInLine.alt (except_anyOf _)).many_seq rfl (.chars _) fun cs => ?_
  fun_cases scanClassRest cs with
  | case1 => rfl
  | case2 => rfl
  | case3 c rest hline => simp [scanEscapeInLine, hline, scanOne, after?]
  | case4 c rest hline => simp [scanEscapeInLine, hline]
  | case5 c rest hlast hnext hline =>
    rw [scanEscapeInLine_eq_none (ne_backslash hlast hnext)]
    simp only [Token.isLineEnd, Bool.or_eq_true, beq_iff_eq] at hline
    have hclose : ']' ≠ c := by rcases hline with rfl | rfl <;> decide
    simp [scanOne, hline, after?, hclose]
  | case6 c rest hlast hnext hline hclose =>
    rw [scanEscapeInLine_eq_none (ne_backslash hlast hnext)]
    simp only [beq_iff_eq] at hclose
    subst hclose
    simp [scanOne, after?]
  | case7 c rest hlast hnext hline hclose =>
    have hback := ne_backslash hlast hnext
    rw [scanEscapeInLine_eq_none hback]
    simp only [Token.isLineEnd, Bool.or_eq_true, beq_iff_eq, not_or] at hline hclose
    simp [scanOne, hline, hclose, hback]

theorem pushAll_bind (front : List Char) (o : Option (List Char × List Char)) (next : Scan) :
    ((pushAll front o).bind fun p => pushAll p.1 (next p.2)) =
      pushAll front (o.bind fun p => pushAll p.1 (next p.2)) := by
  cases o with
  | none => rfl
  | some p => exact (pushAll_pushAll ..).symm

/-- A regular expression goes on inside a class until the class is closed. -/
theorem regularExpressionTail_true (cs : List Char) :
    Token.regularExpressionTail true cs = (scanClassRest cs).bind fun p =>
      pushAll p.1 (Token.regularExpressionTail false p.2) := by
  fun_induction scanClassRest cs with
  | case1 => rfl
  | case2 => rfl
  | case3 c rest hline => simp [Token.regularExpressionTail, hline]
  | case4 c rest hline ih =>
    simp [Token.regularExpressionTail, hline, ih, push_eq, pushAll_bind]
  | case5 c rest hlast hnext hline => simp [Token.regularExpressionTail, hline]
  | case6 c rest hlast hnext hline hclose =>
    have : (c != ']') = false := by simpa using hclose
    simp [Token.regularExpressionTail, hline, this, push_eq]
  | case7 c rest hlast hnext hline hclose ih =>
    have : (c != ']') = true := by simpa using hclose
    simp [Token.regularExpressionTail, hline, this, ih, push_eq, pushAll_bind]

theorem regularExpressionChar : regularExpressionChar.Scans scanRegularExpressionChar := by
  refine (escapeInLine.alt (((Scans.chars _).seq classRest).alt (except_anyOf _))).congr
    fun cs => ?_
  unfold scanRegularExpressionChar
  cases after? "[".toList cs <;> rfl

/-- The body of a regular expression goes on by one character or one class, or ends at a slash. -/
theorem regularExpressionTail_false (cs : List Char) :
    Token.regularExpressionTail false cs = match scanRegularExpressionChar cs with
      | some (text, rest) => pushAll text (Token.regularExpressionTail false rest)
      | none => (after? "/".toList cs).map ("/".toList, ·) := by
  generalize hclass : false = inClass
  fun_cases Token.regularExpressionTail inClass cs with
  | case1 => rfl
  | case2 => subst hclass; rfl
  | case3 c rest hline =>
    subst hclass
    simp [scanRegularExpressionChar, scanEscapeInLine, hline, scanOne, after?]
  | case4 c rest hline =>
    subst hclass
    simp [scanRegularExpressionChar, scanEscapeInLine, hline, push_eq]
  | case5 c rest hlast hnext hline =>
    have hescape : scanEscapeInLine (c :: rest) = none :=
      scanEscapeInLine_eq_none (ne_backslash hlast hnext)
    simp only [Token.isLineEnd, Bool.or_eq_true, beq_iff_eq] at hline
    rcases hline with rfl | rfl <;> simp [scanRegularExpressionChar, hescape, scanOne, after?]
  | case6 c rest hlast hnext hline hin =>
    subst hclass
    cases hin
  | case7 c rest hlast hnext hline hnot hslash =>
    have hescape : scanEscapeInLine (c :: rest) = none :=
      scanEscapeInLine_eq_none (ne_backslash hlast hnext)
    simp only [beq_iff_eq] at hslash
    subst hslash
    simp [scanRegularExpressionChar, hescape, scanOne, after?]
  | case8 c rest hlast hnext hline hnot hslash =>
    have hback := ne_backslash hlast hnext
    have hescape : scanEscapeInLine (c :: rest) = none := scanEscapeInLine_eq_none hback
    simp only [Token.isLineEnd, Bool.or_eq_true, beq_iff_eq, not_or] at hline hslash
    subst hclass
    by_cases hopen : c = '['
    · subst hopen
      have hclass : scanRegularExpressionChar ('[' :: rest) =
          pushAll ['['] (scanClassRest rest) := by
        simp [scanRegularExpressionChar, hescape, scanOne, after?]
      rw [hclass, beq_self_eq_true, regularExpressionTail_true, push_eq]
      cases scanClassRest rest with
      | none => rfl
      | some p => exact pushAll_pushAll ..
    · have hone : scanRegularExpressionChar (c :: rest) = some ([c], rest) := by
        simp [scanRegularExpressionChar, hescape, scanOne, after?, hopen, Ne.symm hopen, hline,
          hslash, hback]
      rw [hone, beq_false_of_ne hopen]
      exact push_eq c _

theorem regularExpression : regularExpression.Scans Token.scanRegularExpression := by
  have hflags : (Lexeme.seq (.text "/") (.many identifierPart)).Scans fun cs =>
      (after? "/".toList cs).map fun rest => ('/' :: Token.word rest, Token.afterWord rest) :=
    ((Scans.chars _).seq (many_one _)).congr fun cs => by
      cases after? "/".toList cs <;> rfl
  have hrest : (Lexeme.seq (.many Lexeme.regularExpressionChar)
        (.seq (.text "/") (.many identifierPart))).Scans fun cs =>
      (Token.regularExpressionTail false cs).map fun p =>
        (p.1 ++ Token.word p.2, Token.afterWord p.2) := by
    refine regularExpressionChar.many_seq rfl hflags fun cs => ?_
    rw [regularExpressionTail_false]
    cases scanRegularExpressionChar cs with
    | none => cases after? "/".toList cs <;> rfl
    | some p =>
      dsimp only
      cases Token.regularExpressionTail false p.2 <;> simp [pushAll]
  have hbody : (Lexeme.seq (plus Lexeme.regularExpressionChar)
      (.seq (.text "/") (.many identifierPart))).Scans _ :=
    fun cs => (run_seq_seq ..).trans (regularExpressionChar.seq hrest cs)
  refine ((Scans.chars _).seq ((anyOf _).without.seq hbody)).congr fun cs => ?_
  unfold Token.scanRegularExpression
  split
  · next c rest =>
    have hslash : after? "/".toList ('/' :: c :: rest) = some (c :: rest) := rfl
    simp only [hslash, Option.map_some, Option.bind_some, isSome_scanOne]
    by_cases hc : c = '*' ∨ c = '/'
    · have hmem : (c == '*' || c == '/') = true := by simpa using hc
      rcases hc with rfl | rfl <;> rfl
    · have hmem : (c == '*' || c == '/') = false := by simpa using hc
      rw [not_or] at hc
      have hnone : (['*', '/'] : List Char).contains c = false := by simpa using hc
      have hend : after? "/".toList (c :: rest) = none := by simp [after?, Ne.symm hc.2]
      simp only [List.head?_cons, Option.any_some, hnone, hmem, Bool.false_eq_true, if_false,
        Option.bind_some, regularExpressionTail_false (c :: rest), hend]
      cases scanRegularExpressionChar (c :: rest) with
      | none => rfl
      | some p => cases h : Token.regularExpressionTail false p.2 <;> simp [h, push_eq, pushAll]
  · next hnot =>
    cases cs with
    | nil => rfl
    | cons c cs =>
      by_cases hc : c = '/'
      · subst hc
        cases cs with
        | nil => rfl
        | cons d cs => exact (hnot d cs rfl).elim
      · simp [after?, Ne.symm hc]

/-! ### Blanks -/

theorem stars : (Lexeme.seq (.many (Lexeme.except (.text "*/"))) (.text "*/")).Scans scanStars := by
  refine (Scans.chars _).except.many_seq rfl (.chars _) fun cs => ?_
  fun_cases scanStars cs with
  | case1 => rfl
  | case2 => rfl
  | case3 c rest hnot =>
    have hnone : after? "*/".toList (c :: rest) = none := by
      refine Token.after?_eq_none_iff.mpr ?_
      rintro ⟨tail, h⟩
      cases h
      exact hnot tail rfl rfl
    simp only [hnone]
    rfl

theorem rest_closeComment (offset : Nat) (cs : List Char) :
    (closeComment offset cs).map (·.rest) = (scanStars cs).map (·.2) := by
  fun_induction closeComment offset cs with
  | case1 => rfl
  | case2 => rfl
  | case3 offset c rest hnot ih =>
    rw [ih, scanStars]
    · cases scanStars rest <;> rfl
    · exact hnot

theorem comment : comment.Scans scanComment := by
  have hline : (Lexeme.many (Lexeme.except (Lexeme.anyOf ['\n', '\r']))).Scans
      fun cs => some (Token.run (fun c => !Token.isLineEnd c) cs) := by
    refine many_scanOne ((except_anyOf _).congr fun cs => ?_) rfl
    have hclass : (fun c => !(['\n', '\r'] : List Char).contains c) = fun c =>
        !Token.isLineEnd c := by
      funext c
      rw [Token.isLineEnd, List.contains_cons, List.contains_cons, List.contains_nil, Bool.or_false]
    rw [hclass]
  refine (((Scans.chars _).seq stars).alt ((Scans.chars _).seq hline)).congr fun cs => ?_
  fun_cases scanComment cs with
  | case1 rest =>
    have hslash : after? "//".toList ('/' :: '*' :: rest) = none := rfl
    have hstar : after? "/*".toList ('/' :: '*' :: rest) = some rest := rfl
    simp only [hslash, hstar]
    exact Option.or_none
  | case2 rest => rfl
  | case3 _ hslash hstar =>
    cases cs with
    | nil => rfl
    | cons c cs =>
      cases cs with
      | nil => simp [after?]
      | cons d cs =>
        by_cases hc : c = '/'
        · subst hc
          have hd : d ≠ '*' ∧ d ≠ '/' := ⟨fun h => hslash cs (h ▸ rfl), fun h => hstar cs (h ▸ rfl)⟩
          simp [after?, hd.1.symm, hd.2.symm]
        · simp [after?, Ne.symm hc]

end Scans

theorem rest_lineEnd (offset : Nat) (cs : List Char) :
    (lineEnd offset cs).rest = cs.dropWhile fun c => !Token.isLineEnd c := by
  fun_induction lineEnd offset cs with
  | case1 => rfl
  | case2 offset c rest hend =>
    have hend : Token.isLineEnd c = true := hend
    simp [hend]
  | case3 offset c rest hend ih =>
    have hend : Token.isLineEnd c = false := by simpa [Token.isLineEnd] using hend
    simp [hend, ih]

theorem run_blanks_cons {c : Char} (h : isBlank c = true) (cs : List Char) :
    blanks.run (c :: cs) = (blanks.run cs).prepend [c] := by
  have hc : whitespace.run (c :: cs) = .matched [c] cs := by
    simp [whitespace, run, h]
  rw [blanks, run_many_seq rfl, hc]

/-- Where no blank stands, a comment is skipped with all after it, or nothing is. -/
theorem run_blanks_of_not {cs : List Char} (h : ∀ c ∈ cs.head?, isBlank c = false) :
    blanks.run cs = match scanComment cs with
      | some (text, rest) => (blanks.run rest).prepend text
      | none => .matched [] cs := by
  have hc : whitespace.run cs = .failed := by
    cases cs with
    | nil => rfl
    | cons c cs => simp [whitespace, run, h c rfl]
  rw [blanks, run_many_seq rfl, hc]
  dsimp only
  have hblanks : (many whitespace).Scans fun cs => some (Token.run isBlank cs) := .many_one isBlank
  rw [run_many rfl, (Scans.comment.seq hblanks) cs]
  dsimp only
  cases scanComment cs with
  | none => rfl
  | some p =>
    obtain ⟨text, rest⟩ := p
    -- the blanks after the comment belong to its round, and the next round begins after them
    have hafter : (seq (many whitespace) (many (.seq Lexeme.comment (.many whitespace)))).run rest =
        ((many (.seq Lexeme.comment (.many whitespace))).run (rest.dropWhile isBlank)).prepend
          (rest.takeWhile isBlank) := by
      rw [run, hblanks rest]
      rfl
    exact (Scanned.prepend_append ..).trans (congrArg (Scanned.prepend text) hafter.symm)

/-- The rule of blanks and comments is decided, and leaves the text that `skipBlanks` leaves. -/
theorem run_blanks (offset : Nat) (cs : List Char) :
    ∃ text, blanks.run cs = .matched text (skipBlanks offset cs).rest := by
  have hslash (cs : List Char) : ∀ c ∈ ('/' :: cs).head?, isBlank c = false := by
    rintro c ⟨⟩
    decide
  fun_induction skipBlanks offset cs with
  | case1 offset => exact ⟨[], rfl⟩
  | case2 offset rest c hclose ih =>
    obtain ⟨text, htext⟩ := ih
    have hstars := Scans.rest_closeComment (offset + 2) rest
    rw [hclose] at hstars
    obtain ⟨⟨body, tail⟩, hbody, htail⟩ := Option.map_eq_some_iff.mp hstars.symm
    have hcomment : scanComment ('/' :: '*' :: rest) = some (['/', '*'] ++ body, tail) := by
      rw [scanComment, hbody, pushAll_some]
    rw [run_blanks_of_not (hslash _), hcomment]
    obtain rfl : tail = c.rest := htail
    exact ⟨_, congrArg (Scanned.prepend (['/', '*'] ++ body)) htext⟩
  | case3 offset rest hclose =>
    have hstars := Scans.rest_closeComment (offset + 2) rest
    rw [hclose] at hstars
    have hcomment : scanComment ('/' :: '*' :: rest) = none := by
      rw [scanComment, Option.map_eq_none_iff.mp hstars.symm, pushAll_none]
    exact ⟨[], by rw [run_blanks_of_not (hslash _), hcomment]⟩
  | case4 offset rest c ih =>
    obtain ⟨text, htext⟩ := ih
    rw [run_blanks_of_not (hslash _), scanComment, Token.run, ← rest_lineEnd (offset + 2),
      pushAll_some]
    exact ⟨_, congrArg (Scanned.prepend _) htext⟩
  | case5 offset c rest h₁ h₂ hblank ih =>
    obtain ⟨text, htext⟩ := ih
    exact ⟨c :: text, by rw [run_blanks_cons hblank, htext]; rfl⟩
  | case6 offset c rest hstars hline hblank =>
    have hcomment : scanComment (c :: rest) = none := by
      unfold scanComment
      split
      · next heq => cases heq; exact (hstars _ rfl rfl).elim
      · next heq => cases heq; exact (hline _ rfl rfl).elim
      · rfl
    refine ⟨[], ?_⟩
    rw [run_blanks_of_not (by simpa using hblank), hcomment]

end Lexeme

open Lexeme in
/-- The rule of a token is decided as its recogniser says. -/
theorem Token.scans_lexeme (t : Token) : t.lexeme.Scans t.scan? := by
  have hname : name.Scans scanName := by
    refine ((Scans.one _).seq (.many_one _)).congr fun cs => ?_
    cases cs with
    | nil => rfl
    | cons c cs =>
      simp only [scanOne, scanName]
      split <;> rfl
  cases t with
  | identifier =>
    refine ((Scans.words (by decide) (by decide)).without.seq hname).congr fun cs => ?_
    simp only [scan?, scanIdentifier, scanWord]
    split
    · rfl
    · cases hscan : scanName cs <;> simp [hscan, pushAll]
  | identifierName => exact hname
  | keyword k => exact .words (by cases k <;> decide) (by simp)
  | nullLiteral => exact .words (by decide) (by decide)
  | booleanLiteral => exact .words (by decide) (by decide)
  | numericLiteral => exact .number
  | stringLiteral => exact .string
  | regularExpressionLiteral => exact .regularExpression
  | postfixOperator => exact .operator (.text _) (.operator (.text _) .noOperator)
  | unaryOperator =>
    exact .operator (.text _) (.operator (.text _) (.operator (.operatorWords (by decide))
      (.operator (.text _)
        (.operator (.text _) (.operator (.text _) (.operator (.text _) .noOperator))))))
  | multiplicativeOperator =>
    exact .operatorsNot (show List.Pairwise _ [['*'], ['/'], ['%']] by decide) _
  | additiveOperator => exact .operator (.textNot _ _) (.operator (.textNot _ _) .noOperator)
  | shiftOperator =>
    exact .operator (.textNot _ _) (.operator (.textNot _ _) (.operator (.textNot _ _) .noOperator))
  | relationalOperator =>
    exact .operator (.text _)
      (.operator (.text _) (.operator (.textNot _ _) (.operator (.textNot _ _)
      (.operator (.operatorWords (by decide))
        (.operator (.operatorWords (by decide)) .noOperator)))))
  | equalityOperator =>
    exact .operator (.text _)
      (.operator (.text _) (.operator (.text _) (.operator (.text _) .noOperator)))
  | bitwiseAndOperator => exact .textNot _ _
  | bitwiseXorOperator => exact .textNot _ _
  | bitwiseOrOperator => exact .textNot _ _
  | logicalAndOperator => exact .text _
  | logicalOrOperator => exact .text _
  | assignmentOperator =>
    exact .operator (.textNot _ _) (.operator (.text _) (.operator (.text _) (.operator (.text _)
      (.operator (.text _) (.operator (.text _) (.operator (.text _) (.operator (.text _)
      (.operator (.text _) (.operator (.text _) (.operator (.text _) (.operator (.text _)
      .noOperator)))))))))))

end ScriptEngine
