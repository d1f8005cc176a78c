import ScriptEngine.Proofs.Grammar.Outcome
import ScriptEngine.Proofs.Script.Grouping
import ScriptEngine.Proofs.Script.Parsing
import Mathlib.Tactic.IntervalCases

/-!
# Precedence of operators

The grammar has a phrase for each level of operators, and the operands of a level are phrases of the
next one.  On names with operators between them, these phrases do what precedence climbing does.

## Main definitions

* `IsIdentifier` : the names that are no reserved words.
* `spaced` : the text of operators and names.
* `Tree.Yields` : the parse trees of a grouping at a position.

## Main statements

* `Infix.scan` : an operator is recognised as the token of its level only.
* `Reads.level` : the phrase of a level stops where precedence climbing does.
* `Program.parse_infix` : the expression of names with operators between them.
-/

namespace ScriptEngine

/-! ### Names -/

/-- The place after a blank. -/
theorem Cursor.rest_skip_blank {c : Cursor} {rest : List Char} (hc : c.rest = ' ' :: rest)
    (hsettled : ∀ offset, (⟨offset, rest⟩ : Cursor).Settled) : c.skip.rest = rest := by
  have hstep : skipBlanks c.offset (' ' :: rest) = skipBlanks (c.offset + 1) rest := by
    rw [skipBlanks.eq_def]
    rfl
  rw [Cursor.skip, hc, hstep]
  exact congrArg Cursor.rest (hsettled _)

/-- The names that are no reserved words. -/
structure IsIdentifier (text : List Char) : Prop where
  starts : ∃ c more, text = c :: more ∧ Text.isIdentifierStart c = true
  parts : ∀ c ∈ text, Text.isIdentifierPart c = true
  free : text ∉ Token.reservedWords

/-- No identifier goes on with a text. -/
def EndsWord (rest : List Char) : Prop :=
  ∀ c ∈ rest.head?, Text.isIdentifierPart c = false

theorem isBlank_of_isIdentifierStart {c : Char} (h : Text.isIdentifierStart c = true) :
    isBlank c = false := by
  have hall :
      ([' ', '\t', '\r', '\n', '\x0B', '\x0C', '\u00A0', '\uFEFF', '\u2028', '\u2029'].all fun x =>
      !Text.isIdentifierStart x) = true := by decide +kernel
  rw [Bool.eq_false_iff]
  intro hblank
  have hmem : c ∈ [' ', '\t', '\r', '\n', '\x0B', '\x0C', '\u00A0', '\uFEFF', '\u2028',
      '\u2029'] := by
    simpa only [isBlank, Bool.or_eq_true, beq_iff_eq, or_assoc, List.mem_cons, List.not_mem_nil,
      or_false] using hblank
  have hstart := List.all_eq_true.mp hall c hmem
  rw [h] at hstart
  cases hstart

/-- No blanks and no comments stand before other characters than those that they begin with. -/
theorem Cursor.settled_of_head {c : Cursor} (hblank : ∀ x ∈ c.rest.head?, isBlank x = false)
    (hcomment : ∀ x more, c.rest = '/' :: x :: more → x ≠ '*' ∧ x ≠ '/') : c.Settled := by
  obtain ⟨offset, rest⟩ := c
  dsimp only at hblank hcomment
  unfold Settled skip
  rw [skipBlanks.eq_def]
  dsimp only
  split
  · rfl
  · exact absurd rfl (hcomment _ _ rfl).1
  · exact absurd rfl (hcomment _ _ rfl).2
  · rw [hblank _ rfl]
    rfl

/-- An operator does not begin like a name, or is a reserved word. -/
def Token.Spelling.isNoName (s : Token.Spelling) : Bool :=
  s.text.head?.any (!Text.isIdentifierStart ·) ||
    s.follow == .wordEnd && reservedWords.contains s.text && s.text.all Text.isIdentifierPart

namespace IsIdentifier

variable {name rest : List Char}

theorem word (h : IsIdentifier name) (hrest : EndsWord rest) : Token.word (name ++ rest) = name :=
  (Token.run_append h.parts hrest).1

theorem scanIdentifier (h : IsIdentifier name) (hrest : EndsWord rest) :
    Token.scan? .identifier (name ++ rest) = some (name, rest) := by
  have hword := h.word hrest
  obtain ⟨c, more, rfl, hc⟩ := h.starts
  obtain ⟨htake, hdrop⟩ :=
    Token.run_append (fun x hx => h.parts x (List.mem_cons_of_mem c hx)) hrest
  have hnot : Token.reservedWords.contains (c :: more) = false := by
    simpa using h.free
  simp only [Token.scan?, Token.scanIdentifier, hword, hnot]
  simp only [List.cons_append, Token.scanName, hc, Token.word, Token.afterWord, htake, hdrop]
  rfl

theorem scanKeyword (h : IsIdentifier name) (hrest : EndsWord rest) (k : Keyword) :
    Token.scan? (.keyword k) (name ++ rest) = none := by
  have hreserved : k.text.toList ∈ Token.reservedWords := by
    cases k <;> decide
  have hne : name ≠ k.text.toList := fun heq => h.free (heq ▸ hreserved)
  simp [Token.scan?, Token.scanWord, h.word hrest, hne]

theorem after?_mark (h : IsIdentifier name) {x : Char} (hx : Text.isIdentifierStart x = false)
    (xs : List Char) :
    Token.after? (x :: xs) (name ++ rest) = none := by
  obtain ⟨c, more, rfl, hc⟩ := h.starts
  have hne : x ≠ c := by
    rintro rfl
    rw [hx] at hc
    cases hc
  simp [Token.after?, hne]

/-- No operator stands where a name does if it begins like no name or is a reserved word. -/
theorem scanOperator (h : IsIdentifier name) (hrest : EndsWord rest)
    {spellings : List Token.Spelling} (hspellings : spellings.all (·.isNoName) = true) :
    Token.scanOperator spellings (name ++ rest) = none := by
  induction spellings with
  | nil => rfl
  | cons s spellings ih =>
    rw [List.all_cons, Bool.and_eq_true] at hspellings
    rw [Token.scanOperator]
    split
    · next tail htail =>
      rw [if_neg, ih hspellings.2]
      intro hfollow
      have hs := hspellings.1
      simp only [Token.Spelling.isNoName, Bool.or_eq_true, Bool.and_eq_true, beq_iff_eq,
        List.contains_iff_mem, List.all_eq_true] at hs
      rcases hs with hmark | ⟨⟨hword, hreserved⟩, hparts⟩
      · cases htext : s.text with
        | nil => simp [htext] at hmark
        | cons x xs =>
          have hx : Text.isIdentifierStart x = false := by simpa [htext] using hmark
          rw [htext, h.after?_mark hx] at htail
          cases htail
      · have hends : ∀ c, tail.head? = some c → Text.isIdentifierPart c = false := by
          simpa [hword, Token.Follow.allows, Option.any_eq_false] using hfollow
        have hname := h.word hrest
        rw [Token.after?_eq_some htail] at hname
        have := (Token.run_append hparts hends).1.symm.trans hname
        exact h.free (this ▸ hreserved)
    · exact ih hspellings.2

theorem settled (h : IsIdentifier name) {c : Cursor} (hc : c.rest = name ++ rest) : c.Settled := by
  obtain ⟨x, more, rfl, hx⟩ := h.starts
  refine Cursor.settled_of_head ?_ ?_
  · rw [hc]
    rintro y ⟨⟩
    exact isBlank_of_isIdentifierStart hx
  · intro y tail heq
    rw [hc, List.cons_append, List.cons.injEq] at heq
    rw [heq.1] at hx
    exact absurd hx (by decide)

end IsIdentifier

/-- The pattern begins with a mark or a keyword, or each of its alternatives does. -/
def Pattern.isNoName : Pattern → Bool
  | .chars text => text.head?.any (!Text.isIdentifierStart ·)
  | .token (.keyword _) => true
  | .token .unaryOperator => true
  | .seq a _ => a.isNoName
  | .alt a b => a.isNoName && b.isNoName
  | _ => false

section

variable {name rest : List Char} {c : Cursor}

/-- Patterns that begin with a mark or a keyword fail at a name. -/
theorem IsIdentifier.fails (h : IsIdentifier name) (hrest : EndsWord rest)
    (hc : c.rest = name ++ rest) :
    ∀ p : Pattern, p.isNoName = true → p.Fails c
  | .chars text, hp => by
    refine Pattern.fails_chars ?_
    cases text with
    | nil => cases hp
    | cons x xs => rw [hc, h.after?_mark (by simpa [Pattern.isNoName] using hp)]
  | .token t, hp => by
    refine Pattern.fails_token ?_
    rw [hc]
    cases t with
    | keyword k => exact h.scanKeyword hrest k
    | unaryOperator => exact h.scanOperator hrest (by decide)
    | _ => cases hp
  | .seq a b, hp => .seq_fails (h.fails hrest hc a hp)
  | .alt a b, hp => by
    rw [Pattern.isNoName, Bool.and_eq_true] at hp
    exact .alt (h.fails hrest hc a hp.1) (h.fails hrest hc b hp.2)

/-- Phrases that begin with a mark or a keyword fail at a name. -/
theorem IsIdentifier.fails_phrase (h : IsIdentifier name) (hrest : EndsWord rest)
    (hc : c.rest = name ++ rest) {q : Phrase} (hq : q.pattern.isNoName = true) :
    (Pattern.phrase q).Fails c :=
  .phrase (h.fails hrest hc _ hq)

end

/-! ### Operators -/

/-- The text of operators and names, with a blank before each of them. -/
def spaced (ops : Operands) : List Char :=
  ops.flatMap fun p => ' ' :: (p.1.text.toList ++ ' ' :: p.2)

theorem tail_spaced (op : Infix) (name : List Char) (ops : Operands) :
    (spaced ((op, name) :: ops)).tail = op.text.toList ++ ' ' :: (name ++ spaced ops) := by
  simp [spaced]

theorem endsWord_spaced (ops : Operands) : EndsWord (spaced ops) := by
  cases ops with
  | nil => nofun
  | cons p ops =>
    rintro c ⟨⟩
    decide

/-- All operators. -/
def Infix.all : List Infix :=
  [.logical .or, .logical .and, .binary .bitwiseOr, .binary .bitwiseXor, .binary .bitwiseAnd,
   .binary .looselyEqual, .binary .looselyUnequal, .binary .strictlyEqual, .binary .strictlyUnequal,
   .binary .lessThan, .binary .greaterThan, .binary .lessThanEqual, .binary .greaterThanEqual,
   .binary .instanceOf, .binary .in_, .binary .leftShift, .binary .rightShift,
     .binary .unsignedRightShift,
   .binary .add, .binary .subtract, .binary .multiply, .binary .divide, .binary .modulo]

theorem Infix.mem_all (op : Infix) : op ∈ all := by
  rcases op with op | op <;> cases op <;> decide

/-- The tokens of the levels. -/
def levelToken : Nat → Token
  | 1 => .logicalOrOperator
  | 2 => .logicalAndOperator
  | 3 => .bitwiseOrOperator
  | 4 => .bitwiseXorOperator
  | 5 => .bitwiseAndOperator
  | 6 => .equalityOperator
  | 7 => .relationalOperator
  | 8 => .shiftOperator
  | 9 => .additiveOperator
  | _ => .multiplicativeOperator

/-- The phrases of the levels, and that of the operands of the last one. -/
def levelPhrase : Nat → Phrase
  | 1 => .logicalOrExpression
  | 2 => .logicalAndExpression
  | 3 => .bitwiseOrExpression
  | 4 => .bitwiseXorExpression
  | 5 => .bitwiseAndExpression
  | 6 => .equalityExpression
  | 7 => .relationalExpression
  | 8 => .shiftExpression
  | 9 => .additiveExpression
  | 10 => .multiplicativeExpression
  | _ => .unaryExpression

namespace Token

/-- What a word without blanks leaves before a blank. -/
theorem after?_blank {word : List Char} (hword : ' ' ∉ word) (text rest : List Char) :
    after? word (text ++ ' ' :: rest) = (after? word (text ++ [' '])).map (· ++ rest) ∧
      ∀ tail, after? word (text ++ [' ']) = some tail → tail ≠ [] := by
  induction text generalizing word with
  | nil =>
    cases word with
    | nil => simp [after?]
    | cons p ps =>
      have hp : p ≠ ' ' := fun heq => hword (heq ▸ List.mem_cons_self)
      simp [after?, hp]
  | cons c text ih =>
    cases word with
    | nil => simp [after?]
    | cons p ps =>
      simp only [List.cons_append, after?]
      split
      · exact ih fun hmem => hword (List.mem_cons_of_mem p hmem)
      · exact ⟨rfl, fun tail h => by cases h⟩

theorem Follow.allows_append (follow : Follow) {tail : List Char} (htail : tail ≠ [])
    (rest : List Char) :
    follow.allows (tail ++ rest) = follow.allows tail := by
  obtain ⟨x, more, rfl⟩ := List.exists_cons_of_ne_nil htail
  cases follow <;> rfl

/-- Which operator stands before a blank does not depend on what comes after the blank. -/
theorem scanOperator_blank {spellings : List Spelling} (h : ∀ s ∈ spellings, ' ' ∉ s.text)
    (text rest : List Char) : scanOperator spellings (text ++ ' ' :: rest) =
      (scanOperator spellings (text ++ [' '])).map fun p => (p.1, p.2 ++ rest) := by
  induction spellings with
  | nil => rfl
  | cons s spellings ih =>
    rw [List.forall_mem_cons] at h
    obtain ⟨hafter, htail⟩ := after?_blank h.1 text rest
    rw [scanOperator, scanOperator, hafter, ih h.2]
    cases hword : after? s.text (text ++ [' ']) with
    | none => rfl
    | some tail =>
      simp only [Option.map_some, s.follow.allows_append (htail tail hword)]
      split <;> rfl

end Token

namespace Infix

/-- The tokens that are tried after an operand. -/
def tokens : List Token :=
  .assignmentOperator :: .postfixOperator :: (List.range' 1 10).map levelToken

/-- An operator is recognised as the token of its level only. -/
theorem scan (op : Infix) {t : Token} (ht : t ∈ tokens) (rest : List Char) :
    t.scan? (op.text.toList ++ ' ' :: rest) =
      if t = levelToken op.level then some (op.text.toList, ' ' :: rest) else none := by
  have hscan : t.scan? = Token.scanOperator t.spellings := by
    cases t with
    | keyword k => exact absurd ht (by cases k <;> decide)
    | _ => first | rfl | exact absurd ht (by decide)
  have hblank : ∀ t ∈ tokens, ∀ s ∈ t.spellings, ' ' ∉ s.text := by
    decide
  have hall : ∀ op ∈ all, ∀ t ∈ tokens, Token.scanOperator t.spellings (op.text.toList ++ [' ']) =
      if t = levelToken op.level then some (op.text.toList, [' ']) else none := by
    decide
  rw [hscan, Token.scanOperator_blank (hblank t ht), hall op op.mem_all t ht]
  split <;> rfl

/-- Operators begin with characters that stand nowhere else after an operand. -/
theorem exists_head (op : Infix) : ∃ x xs, op.text.toList = x :: xs ∧ isBlank x = false ∧
    (x = '/' → xs = []) ∧ x ∉ ['(', '.', '[', ':'] := by
  have hall : ∀ op ∈ all, (op.text.toList.head?.any fun x => !isBlank x &&
      (x != '/' || op.text.toList == ['/']) && !(['(', '.', '[', ':'].contains x)) = true := by
    decide
  have hop := hall op op.mem_all
  cases htext : op.text.toList with
  | nil => simp [htext] at hop
  | cons x xs =>
    simp only [htext, List.head?_cons, Option.any_some, Bool.and_eq_true, Bool.not_eq_true',
      Bool.or_eq_true, bne_iff_ne, beq_iff_eq, List.contains_eq_mem, decide_eq_false_iff_not] at hop
    refine ⟨x, xs, rfl, hop.1.1, fun hx => ?_, hop.2⟩
    exact (List.cons.inj (hop.1.2.resolve_left (not_not_intro hx))).2

end Infix

/-- The pattern begins with a mark that stands behind other expressions than names, or with an
operator that changes a variable. -/
def Pattern.isNoInfix : Pattern → Bool
  | .chars text => text.head?.any ['(', '.', '[', ':'].contains
  | .token t => t == .assignmentOperator || t == .postfixOperator
  | .seq a _ => a.isNoInfix
  | .alt a b => a.isNoInfix && b.isNoInfix
  | _ => false

section

variable {ops : Operands} {c : Cursor}

/-- No blanks stand before an operator. -/
theorem settled_tail_spaced (hc : c.rest = (spaced ops).tail) : c.Settled := by
  refine Cursor.settled_of_head ?_ ?_
  · rw [hc]
    cases ops with
    | nil => nofun
    | cons p ops =>
      obtain ⟨x, xs, htext, hblank, -⟩ := p.1.exists_head
      rw [tail_spaced, htext]
      rintro y ⟨⟩
      exact hblank
  · rw [hc]
    intro y more heq
    cases ops with
    | nil => cases heq
    | cons p ops =>
      obtain ⟨x, xs, htext, -, hslash, -⟩ := p.1.exists_head
      rw [tail_spaced, htext, List.cons_append, List.cons.injEq] at heq
      rw [hslash heq.1, List.nil_append, List.cons.injEq] at heq
      rw [← heq.2.1]
      decide

/-- The place after a name and the blank behind it. -/
theorem rest_skip_spaced (hc : c.rest = spaced ops) : c.skip.rest = (spaced ops).tail := by
  cases ops with
  | nil =>
    rw [Cursor.skip, hc, spaced, List.flatMap_nil, skipBlanks.eq_def]
    rfl
  | cons p ops =>
    exact Cursor.rest_skip_blank hc fun offset =>
      settled_tail_spaced (show _ = (spaced (p :: ops)).tail from rfl)

/-- Patterns that begin with what stands behind other expressions fail at an operator. -/
theorem fails_atInfix (hc : c.rest = (spaced ops).tail) :
    ∀ p : Pattern, p.isNoInfix = true → p.Fails c
  | .chars text, hp => by
    refine Pattern.fails_chars ?_
    rw [hc]
    cases text with
    | nil => cases hp
    | cons x xs =>
      cases ops with
      | nil => rfl
      | cons p ops =>
        obtain ⟨y, ys, hop, -, -, hy⟩ := p.1.exists_head
        have hx : x ∈ ['(', '.', '[', ':'] := List.contains_iff_mem.mp hp
        have hne : x ≠ y := fun heq => hy (heq ▸ hx)
        rw [tail_spaced, hop]
        simp [Token.after?, hne]
  | .token t, hp => by
    refine Pattern.fails_token ?_
    rw [hc]
    simp only [Pattern.isNoInfix, Bool.or_eq_true, beq_iff_eq] at hp
    cases ops with
    | nil => rcases hp with rfl | rfl <;> rfl
    | cons p ops =>
      have hmem : t ∈ Infix.tokens := by
        rcases hp with rfl | rfl <;> decide
      have hne : t ≠ levelToken p.1.level := by
        have := p.1.level_pos
        have := p.1.level_le
        rcases hp with rfl | rfl <;> interval_cases p.1.level <;> decide
      rw [tail_spaced, p.1.scan hmem, if_neg hne]
  | .seq a b, hp => .seq_fails (fails_atInfix hc a hp)
  | .alt a b, hp => by
    rw [Pattern.isNoInfix, Bool.and_eq_true] at hp
    exact .alt (fails_atInfix hc a hp.1) (fails_atInfix hc b hp.2)

theorem fails_phrase_atInfix (hc : c.rest = (spaced ops).tail) {q : Phrase}
    (hq : q.pattern.isNoInfix = true) :
    (Pattern.phrase q).Fails c :=
  .phrase (fails_atInfix hc _ hq)

end

/-! ### Operands -/

/-- A tree in which no keyword is passed over. -/
def Tree.IsKeyless : Tree → Prop
  | .node p .. => ∀ count, p.keywords count = []
  | _ => True

/-- No keyword is missing where none is passed over. -/
theorem Tree.hasKeywords_of_isKeyless {p : Phrase} (hp : ∀ count, p.keywords count = [])
    {children : List Tree} (h : ∀ t ∈ children, t.IsKeyless) :
    Tree.hasKeywords p children = true := by
  have hnone {q : Phrase} (hq : ∀ count, q.keywords count = []) (ts : List Tree) :
      Tree.keywordsAt q ts = true := by
    rw [Tree.keywordsAt, hq]
    rfl
  rw [Tree.hasKeywords, hnone hp, Bool.true_and, List.all_eq_true]
  intro t ht
  cases t with
  | node q span parts => exact hnone (h _ ht) parts
  | leaf | finish => rfl

/-- The parse tree of a grouping at a position. -/
structure Tree.Yields (t : Tree) (position : Position) (g : Grouping) : Prop where
  takes : position.Takes t
  keyless : t.IsKeyless
  built : ∀ source strict counters, ∃ e counters',
    Build.expr source position strict t counters = .ok (e, counters') ∧ g.Describes e

/-- A phrase with one part is the same expression at the positions that the phrase has. -/
theorem Tree.Yields.node {t : Tree} {p : Phrase} {g : Grouping} (h : t.Yields p.inner g)
    (hp : p.isHeaded = true) (hkeyless : ∀ count, p.keywords count = []) {position : Position}
    (span : Span) (hposition : position.Takes (.node p span [t])) :
    (Tree.node p span [t]).Yields position g where
  takes := hposition
  keyless := hkeyless
  built := fun source strict counters => by
    rw [Build.expr_headed hp hposition
      (Tree.hasKeywords_of_isKeyless hkeyless (List.forall_mem_singleton.mpr h.keyless))]
    exact h.built source strict counters

theorem Tree.yields_leaf (span : Span) (name : List Char) :
    (Tree.leaf .identifier span name).Yields .atom (.name name) where
  takes := ⟨rfl, rfl⟩
  keyless := trivial
  built := fun source strict counters => by
    refine ⟨.identifier ⟨counters.node, String.ofList name, span⟩,
      { counters with node := counters.node + 1 }, ?_, .name rfl⟩
    rw [Build.expr]
    rfl

section

variable {name : List Char} {ops : Operands} {c : Cursor}

/-- A name is an expression that may stand before an assignment operator. -/
theorem IsIdentifier.gives_lhs (h : IsIdentifier name) (hc : c.rest = name ++ spaced ops) :
    ∃ t next, (Pattern.phrase .lhsExpression).Gives c [t] next ∧ next.rest = (spaced ops).tail ∧
      t.Yields .leftHand (.name name) := by
  have hends := endsWord_spaced ops
  have hleaf := Pattern.gives_token (hc ▸ h.scanIdentifier hends)
  have hprimary := Pattern.Comes.phrase (q := .primaryExpression)
    (.alt (h.fails hends hc (Pattern.kw .this) rfl) (.alt_first hleaf))
  have hnext := rest_skip_spaced (c := c.advance name (spaced ops)) rfl
  have hsettled := settled_tail_spaced hnext
  have hnew := h.fails_phrase hends hc (q := .newExpressionWithArguments) rfl
  have hnew' := h.fails_phrase hends hc (q := .newExpression) rfl
  have hsuffix :
      (Pattern.choice (.phrase .arguments) [.phrase .dotMember, .phrase .computedMember]).Fails
      (c.advance name (spaced ops)).skip :=
    Pattern.fails_choice (fails_phrase_atInfix hnext rfl)
      (by rintro q (_ | ⟨_, _ | ⟨_, ⟨⟩⟩⟩) <;> exact fails_phrase_atInfix hnext rfl)
  have hstop := (Pattern.Rounds.stop (hsettled.symm ▸ hsuffix)).many hsettled rfl
  refine ⟨_, _, Pattern.Comes.phrase (q := .lhsExpression)
    (.seq (.alt hnew (.alt hnew' hprimary)) hstop),
    hnext, ?_⟩
  refine .node ?_ rfl (fun _ => rfl) _ rfl
  exact (Tree.yields_leaf _ _).node rfl (fun _ => rfl) _ rfl

theorem IsIdentifier.gives_unary (h : IsIdentifier name) (hc : c.rest = name ++ spaced ops) :
    ∃ t next, (Pattern.phrase .unaryExpression).Gives c [t] next ∧ next.rest = (spaced ops).tail ∧
      t.Yields .operand (.name name) := by
  obtain ⟨t, d, hlhs, hd, ht⟩ := h.gives_lhs hc
  have hpostfix := Pattern.Comes.phrase (q := .postfixExpression)
    (.seq_settled hlhs (settled_tail_spaced hd)
      (.optional (fails_atInfix hd (.token .postfixOperator) rfl)))
  have hunary := h.fails (endsWord_spaced ops) hc
    (.seq (.token .unaryOperator) (.phrase .unaryExpression)) rfl
  refine ⟨_, _, Pattern.Comes.phrase (q := .unaryExpression) (.alt hunary hpostfix), hd, ?_⟩
  refine .node ?_ rfl (fun _ => rfl) _ rfl
  exact ht.node rfl (fun _ => rfl) _ rfl

end

/-! ### Levels -/

theorem pattern_levelPhrase {k : Nat} (hk : k ∈ List.range' 1 10) :
    (levelPhrase k).pattern = Pattern.operands (levelPhrase (k + 1)) (levelToken k) := by
  have hall : ∀ k ∈ List.range' 1 10,
      (levelPhrase k).pattern = Pattern.operands (levelPhrase (k + 1)) (levelToken k) := by
    decide
  exact hall k hk

/-- The parse trees of operators and operands that a grouping is joined to. -/
structure ChainYields (trees : List Tree) (g whole : Grouping) : Prop where
  keyless : ∀ t ∈ trees, t.IsKeyless
  built : ∀ source strict left counters, g.Describes left → ∃ e counters',
    Build.chain source strict left trees counters = .ok (e, counters') ∧ whole.Describes e

theorem chainYields_nil (g : Grouping) : ChainYields [] g g where
  keyless := List.forall_mem_nil _
  built := fun source strict left counters h => ⟨left, counters, by rw [Build.chain]; rfl, h⟩

theorem Build.bind_of_ok {α β : Type} {x : Build α} {f : α → Build β} {c c' : Counters} {a : α}
    (h : x c = .ok (a, c')) : (x >>= f) c = f a c' := by
  change (x c >>= fun p => f p.1 p.2) = f a c'
  rw [h]
  rfl

/-- Two operands joined by an operator. -/
theorem Build.exists_joined (op : Infix) {g r : Grouping} {left right : Expr}
    (hl : g.Describes left) (hr : r.Describes right) (span : Span) (counters : Counters) :
    ∃ e, joined left (levelToken op.level) span op.text.toList right counters = .ok (e, counters) ∧
      (Grouping.join op g r).Describes e := by
  rcases op with op | op
  · refine ⟨.binary (left.span.join right.span) op left right, ?_, .binary hl hr⟩
    cases op <;> rfl
  · refine ⟨.logical (left.span.join right.span) op left right, ?_, .logical hl hr⟩
    cases op <;> rfl

theorem Tree.Yields.cons {op : Infix} {t : Tree} {trees : List Tree} {g r whole : Grouping}
    (ht : t.Yields .operand r) (h : ChainYields trees (.join op g r) whole) (span : Span) :
    ChainYields (.leaf (levelToken op.level) span op.text.toList :: t :: trees) g whole where
  keyless := List.forall_mem_cons.mpr ⟨trivial, List.forall_mem_cons.mpr ⟨ht.keyless, h.keyless⟩⟩
  built := fun source strict left counters hleft => by
    obtain ⟨right, c', hright, hr⟩ := ht.built source strict counters
    obtain ⟨both, hboth, hdescribes⟩ := Build.exists_joined op hleft hr span c'
    obtain ⟨e, c'', he, hwhole⟩ := h.built source strict both c' hdescribes
    refine ⟨e, c'', ?_, hwhole⟩
    rw [Build.chain, Build.bind_of_ok hright, Build.bind_of_ok hboth, he]

/-- The phrases of the levels have infix operators. -/
theorem levelPhrase_mem_infixes {k : Nat} (hk : k ∈ List.range' 1 10) :
    levelPhrase k ∈ Phrase.infixes := by
  have hall : ∀ k ∈ List.range' 1 10, levelPhrase k ∈ Phrase.infixes := by
    decide
  exact hall k hk

/-- A phrase of operands with infix operators between them joins them from the left. -/
theorem Build.expr_infix {source : List Char} {p : Phrase} (hp : p ∈ Phrase.infixes) {t : Tree}
    {trees : List Tree} (hkeywords : Tree.hasKeywords p (t :: trees) = true) (strict : Bool)
    (span : Span) :
    expr source .operand strict (.node p span (t :: trees)) =
      expr source .operand strict t >>= fun left => chain source strict left trees := by
  have hinfix : Phrase.infixes.contains p = true := List.contains_iff_mem.mpr hp
  have hcheck : (Position.operand.phrases.contains p && Tree.hasKeywords p (t :: trees)) =
      true := by
    rw [hkeywords, Bool.and_true]
    exact List.contains_iff_mem.mpr (List.mem_cons_of_mem _ hp)
  conv => lhs; unfold expr
  rw [if_pos hcheck]
  simp only [Phrase.infixes, List.mem_cons, List.not_mem_nil, or_false] at hp
  rcases hp with rfl | rfl | rfl | rfl | rfl | rfl | rfl | rfl | rfl | rfl <;>
  · dsimp only
    rw [if_pos hinfix]

/-- A statement that is an expression is built from it. -/
theorem Build.stmt_expressionStatement {source : List Char} {strict : Bool} {span : Span} {t : Tree}
    (hkeywords : Tree.hasKeywords .expressionStatement [t] = true) :
    stmt source strict (.node .expressionStatement span [t]) =
      expr source .expression strict t >>= fun e => pure (.expression span e) := by
  unfold stmt
  rw [if_pos hkeywords]

theorem ChainYields.node {k : Nat} (hk : k ∈ List.range' 1 10) {t : Tree} {trees : List Tree}
    {g whole : Grouping} (ht : t.Yields .operand g) (h : ChainYields trees g whole) (span : Span) :
    (Tree.node (levelPhrase k) span (t :: trees)).Yields .operand whole := by
  have hinfix := levelPhrase_mem_infixes hk
  have hnone : ∀ p ∈ Phrase.infixes, ∀ count, p.keywords count = [] := by
    simp [Phrase.infixes, Phrase.keywords]
  refine ⟨List.contains_iff_mem.mpr (List.mem_cons_of_mem _ hinfix), hnone _ hinfix,
    fun source strict counters => ?_⟩
  obtain ⟨left, c', hleft, hg⟩ := ht.built source strict counters
  obtain ⟨e, c'', he, hwhole⟩ := h.built source strict left c' hg
  refine ⟨e, c'', ?_, hwhole⟩
  have hkeywords := Tree.hasKeywords_of_isKeyless (hnone _ hinfix)
    (List.forall_mem_cons.mpr ⟨ht.keyless, h.keyless⟩)
  rw [Build.expr_infix hinfix hkeywords, Build.bind_of_ok hleft, he]

/-- The phrase of a level reads what precedence climbing groups at this level. -/
def Reads (k : Nat) (name : List Char) (ops : Operands) : Prop :=
  ∀ c : Cursor, c.rest = name ++ spaced ops → ∃ t next,
    (Pattern.phrase (levelPhrase k)).Gives c [t] next ∧
      next.rest = (spaced (climbed k (.name name) ops).2).tail ∧
        t.Yields .operand (climbed k (.name name) ops).1

/-- No operator of another level is read. -/
theorem fails_levelToken {k : Nat} (hk : k ∈ List.range' 1 10) {ops : Operands}
    (hops : ∀ p ∈ ops.head?, p.1.level ≠ k) {c : Cursor} (hc : c.rest = (spaced ops).tail) :
    (Pattern.token (levelToken k)).Fails c := by
  refine Pattern.fails_token ?_
  rw [hc]
  cases ops with
  | nil =>
    obtain ⟨hk, hk'⟩ := List.mem_range'_1.mp hk
    interval_cases k <;> rfl
  | cons p ops =>
    have hmem : levelToken k ∈ Infix.tokens :=
      List.mem_cons_of_mem _ (List.mem_cons_of_mem _ (List.mem_map_of_mem hk))
    have hinj : ∀ k ∈ List.range' 1 10, ∀ l ∈ List.range' 1 10,
        levelToken k = levelToken l → l = k := by
      decide
    have hlevel : p.1.level ∈ List.range' 1 10 :=
      List.mem_range'_1.mpr ⟨p.1.level_pos, Nat.lt_succ_of_le p.1.level_le⟩
    rw [tail_spaced, p.1.scan hmem, if_neg]
    exact fun heq => hops p rfl (hinj k hk _ hlevel heq)

/-- The rounds of a level, each of which reads an operator of the level and an operand of the next
one. -/
theorem exists_rounds {k bound : Nat} (hk : k ∈ List.range' 1 10)
    (ih : ∀ name ops, ops.length < bound → IsIdentifier name → (∀ p ∈ ops, IsIdentifier p.2) →
      Reads (k + 1) name ops)
    (g : Grouping) (ops : Operands) (hbound : ops.length ≤ bound)
    (hops : ∀ p ∈ ops, IsIdentifier p.2) (hhead : ∀ p ∈ ops.head?, p.1.level < k + 1) (c : Cursor)
    (hc : c.rest = (spaced ops).tail) :
    ∃ trees next, (Pattern.seq (.token (levelToken k)) (.phrase (levelPhrase (k + 1)))).Rounds c
      trees next ∧
      next.rest = (spaced (climbed k g ops).2).tail ∧ ChainYields trees g (climbed k g ops).1 := by
  have hsettled := settled_tail_spaced hc
  induction k, g, ops using climbed_induct generalizing c with
  | nil k g =>
    have hstop := fails_levelToken hk (by nofun) hc
    rw [climbed_nil]
    exact ⟨[], c, .stop (hsettled.symm ▸ .seq_fails hstop), hc, chainYields_nil g⟩
  | stop k g op name ops h =>
    have hstop := fails_levelToken hk (by rintro p ⟨⟩; exact Nat.ne_of_lt h) hc
    rw [climbed_stop h]
    exact ⟨[], c, .stop (hsettled.symm ▸ .seq_fails hstop), hc, chainYields_nil g⟩
  | join k g op name ops h _ ihrest =>
    obtain rfl : op.level = k := Nat.le_antisymm (Nat.le_of_lt_succ (hhead _ rfl)) h
    rw [List.forall_mem_cons] at hops
    rw [tail_spaced] at hc
    have hscan : (levelToken op.level).scan? c.rest =
        some (op.text.toList, ' ' :: (name ++ spaced ops)) := by
      rw [hc, op.scan (List.mem_cons_of_mem _ (List.mem_cons_of_mem _ (List.mem_map_of_mem hk))),
        if_pos rfl]
    have hskip : (c.advance op.text.toList (' ' :: (name ++ spaced ops))).skip.rest = name ++
        spaced ops :=
      Cursor.rest_skip_blank rfl fun offset => hops.1.settled rfl
    obtain ⟨t, d, hoperand, hd, ht⟩ := ih name ops hbound hops.1 hops.2 _ hskip
    have hsuffix := climbed_suffix (op.level + 1) (.name name) ops
    obtain ⟨trees, next, hrounds, hnext, hchain⟩ := ihrest hk ih
      ((length_climbed ..).trans (Nat.le_of_lt hbound)) (fun p hp => hops.2 p (hsuffix.subset hp))
      (level_climbed _ _ _) d hd (settled_tail_spaced hd)
    have hround := Pattern.Comes.seq (Pattern.gives_token hscan) hoperand
    rw [climbed_join h]
    refine ⟨_, next, .round (hsettled.symm ▸ hround) hrounds, hnext, ?_⟩
    exact ht.cons hchain _

/-- The phrase of each level reads what precedence climbing groups at this level. -/
theorem reads {name : List Char} {ops : Operands} (hname : IsIdentifier name)
    (hops : ∀ p ∈ ops, IsIdentifier p.2) {k : Nat} (hk : 1 ≤ k) (hk' : k ≤ 11) :
    Reads k name ops := by
  induction hlength : ops.length using Nat.strong_induction_on generalizing name ops k with
  | _ bound ih =>
    -- downwards, from the phrase of single operands
    induction hk' using Nat.decreasingInduction with
    | self =>
      intro c hc
      have hstop : climbed 11 (.name name) ops = (.name name, ops) := by
        cases ops with
        | nil => exact climbed_nil ..
        | cons p ops => exact climbed_stop (Nat.lt_succ_of_le p.1.level_le)
      rw [hstop]
      exact hname.gives_unary hc
    | of_succ k hk' ihk =>
      have hmem : k ∈ List.range' 1 10 := List.mem_range'_1.mpr ⟨hk, by omega⟩
      intro c hc
      obtain ⟨t, d, hfirst, hd, ht⟩ := ihk (Nat.le_succ_of_le hk) c hc
      have hsuffix := climbed_suffix (k + 1) (.name name) ops
      have hsettled := settled_tail_spaced hd
      obtain ⟨trees, next, hrounds, hnext, hchain⟩ := @exists_rounds k bound hmem
        (fun _ _ hlt hname hops => ih _ hlt hname hops (Nat.le_succ_of_le hk) hk' rfl) _ _
        (hlength ▸ length_climbed ..) (fun p hp => hops p (hsuffix.subset hp))
          (level_climbed _ _ _) d hd
      have hlevel : (levelPhrase k).pattern.Gives c (t :: trees) next := by
        rw [pattern_levelPhrase hmem]
        exact .seq_settled hfirst hsettled (hrounds.many hsettled rfl)
      rw [climbed_succ]
      refine ⟨_, next, .phrase hlevel, hnext, ?_⟩
      exact hchain.node hmem ht _

/-! ### Whole texts -/

section

variable {name : List Char} {ops : Operands} {c : Cursor}

theorem gives_expression (hname : IsIdentifier name) (hops : ∀ p ∈ ops, IsIdentifier p.2)
    (hc : c.rest = name ++ spaced ops) :
    ∃ t next, (Pattern.phrase .expression).Gives c [t] next ∧ next.rest = [] ∧
      t.Yields .expression (climbed 1 (.name name) ops).1 := by
  obtain ⟨t, d, hlevel, hd, ht⟩ := reads hname hops le_rfl (by decide) c hc
  have hnone : (climbed 1 (.name name) ops).2 = [] := by
    refine List.head?_eq_none_iff.mp (Option.eq_none_iff_forall_not_mem.mpr fun p hp => ?_)
    exact absurd p.1.level_pos (Nat.not_le_of_lt (level_climbed _ _ _ p hp))
  rw [hnone] at hd
  have hsettled := settled_tail_spaced hd
  have hconditional := Pattern.Comes.phrase (q := .conditionalExpression)
    (.seq_settled hlevel hsettled (.optional (Pattern.fails_at_end rfl rfl hd)))
  obtain ⟨t', d', hlhs, hd', -⟩ := hname.gives_lhs hc
  have hassignment := Pattern.Comes.phrase (q := .assignmentExpression)
    (.alt (.seq_settled hlhs (settled_tail_spaced hd')
      (.seq_fails (fails_atInfix hd' (.token .assignmentOperator) rfl))) hconditional)
  have hexpression := Pattern.Comes.phrase (q := .expression)
    (.seq_settled hassignment hsettled
      ((Pattern.Rounds.stop (hsettled.symm ▸ Pattern.fails_at_end rfl rfl hd)).many hsettled rfl))
  refine ⟨_, d, hexpression, hd, ?_⟩
  refine .node ?_ rfl (fun _ => rfl) _ rfl
  refine .node ?_ rfl (fun _ => rfl) _ rfl
  exact ht.node rfl (fun _ => rfl) _ rfl

/-- The statements that begin with a keyword or a mark. -/
def keywordStatements : List Phrase :=
  [.variableStatement, .emptyStatement, .ifStatement, .doWhileStatement, .whileStatement,
    .forInStatement,
   .forStatement, .continueStatement, .breakStatement, .returnStatement, .withStatement,
     .switchStatement,
   .throwStatement, .tryStatement, .debuggerStatement]

theorem gives_statement (hname : IsIdentifier name) (hops : ∀ p ∈ ops, IsIdentifier p.2)
    (hc : c.rest = name ++ spaced ops) :
    ∃ span t next, Pattern.sourceElement.Gives c [.node .expressionStatement span [t]] next ∧
      next.rest = [] ∧
      t.Yields .expression (climbed 1 (.name name) ops).1 := by
  have hends := endsWord_spaced ops
  obtain ⟨t, d, hexpression, hd, ht⟩ := gives_expression hname hops hc
  have hsettled : d.Settled := settled_tail_spaced (show d.rest = (spaced []).tail from hd)
  have hfinish : Pattern.statementEnd.Gives d [] d :=
    .alt (Pattern.fails_at_end rfl rfl hd) (.alt (.ahead_fails (Pattern.fails_at_end rfl rfl hd))
      (.ahead (Pattern.gives_finish hd)))
  have hguard :=
    Pattern.Comes.without
      (hname.fails hends hc (.alt (Pattern.mark "\x7b") (Pattern.kw .function)) rfl)
  have hstatement := Pattern.Comes.phrase (q := .expressionStatement)
    (.seq_settled hguard (hname.settled hc) (.seq_settled hexpression hsettled hfinish))
  -- a name may also be a label, but no colon comes after it
  have hlabel : (Pattern.phrase .labelledStatement).Fails c := by
    have hnext := rest_skip_spaced (c := c.advance name (spaced ops)) rfl
    have hcolon := fails_atInfix hnext (.seq (Pattern.mark ":") Pattern.statement) rfl
    exact Pattern.Comes.phrase (q := .labelledStatement)
      (.seq (Pattern.gives_token (hc ▸ hname.scanIdentifier hends)) hcolon)
  have hkeywords : ∀ q ∈ keywordStatements, q.pattern.isNoName = true := by
    decide
  have hothers : ∀ p ∈ keywordStatements.map Pattern.phrase ++ [.phrase .labelledStatement],
      p.Fails c := by
    refine List.forall_mem_append.mpr ⟨List.forall_mem_map.mpr fun q hq => ?_,
      List.forall_mem_singleton.mpr hlabel⟩
    exact hname.fails_phrase hends hc (hkeywords q hq)
  have hchoice := Pattern.comes_choice (hname.fails_phrase hends hc (q := .block) rfl)
      hothers hstatement
  have hdeclaration := hname.fails_phrase hends hc (q := .functionDeclaration) rfl
  exact ⟨_, t, d, .alt hdeclaration hchoice, hd, ht⟩

/-- A text of names with operators between them is a script.  Its only statement is an expression,
which has the grouping that precedence climbing builds. -/
theorem Program.parse_infix (hname : IsIdentifier name) (hops : ∀ p ∈ ops, IsIdentifier p.2) :
    ∃ p span e, Program.parse (String.ofList (name ++ spaced ops)) = .ok p ∧
      p.body = [.expression span e] ∧
      (climb 1 (.name name) ops).1.Describes e := by
  obtain ⟨span, t, d, hstatement, hd, ht⟩ :=
    gives_statement hname hops (c := ⟨0, name ++ spaced ops⟩) rfl
  have hstart : Cursor.Settled ⟨0, name ++ spaced ops⟩ := hname.settled rfl
  have hsettled : d.Settled := settled_tail_spaced (show d.rest = (spaced []).tail from hd)
  have hstop : Pattern.sourceElement.Rounds d [] d :=
    .stop (hsettled.symm ▸ Pattern.fails_at_end rfl rfl hd)
  have hround : Pattern.sourceElement.Gives (Cursor.skip ⟨0, name ++ spaced ops⟩)
      [.node .expressionStatement span [t]] d := by
    rwa [hstart]
  have hrounds := (Pattern.Rounds.round hround hstop).many hstart rfl
  have hparts := Pattern.Comes.seq_settled hrounds hsettled (Pattern.gives_finish hd)
  have hscript : (Parse.script (name ++ spaced ops)).outcome = .matched
      [.node .script ⟨0, d.offset⟩ [.node .expressionStatement span [t], .finish d.offset]] d :=
    Parse.script_of_comes
      (.phrase (q := .script) (.seq_settled (Pattern.gives_start rfl) hstart hparts))
  have htree : Tree.ofSource (name ++ spaced ops) = .ok (.node .script ⟨0, d.offset⟩
      [.node .expressionStatement span [t], .finish d.offset]) := by
    have hrun := Attempt.eq_mk hscript
    generalize (Parse.script (name ++ spaced ops)).furthest = furthest at hrun
    unfold Tree.ofSource
    rw [hrun]
  generalize hstrict : hasStrictDirective (Build.directives (name ++ spaced ops)
    [.node .expressionStatement span [t]]) = strict
  obtain ⟨e, c', he, hdescribes⟩ := ht.built (name ++ spaced ops) strict ⟨0, 1⟩
  have hbody : Build.stmts (name ++ spaced ops) strict
      [.node .expressionStatement span [t]] ⟨0, 1⟩ =
      .ok ([.expression span e], c') := by
    have hstmt : Build.stmt (name ++ spaced ops) strict
        (.node .expressionStatement span [t]) ⟨0, 1⟩ =
        .ok (.expression span e, c') := by
      rw [Build.stmt_expressionStatement (Tree.hasKeywords_of_isKeyless (fun _ => rfl)
        (List.forall_mem_singleton.mpr ht.keyless)), Build.bind_of_ok he]
      rfl
    rw [Build.stmts, Build.bind_of_ok hstmt, Build.stmts]
    rfl
  refine ⟨⟨⟨0, d.offset⟩, [.expression span e], strict, c'.function, c'.node⟩, span, e, ?_,
    rfl, hdescribes⟩
  rw [Program.parse_of_ok (by rw [String.toList_ofList]; exact htree), String.toList_ofList]
  simp only [Program.ofTree, List.filter_cons, List.filter_nil, if_true, Bool.false_eq_true,
    if_false, hstrict, StateT.run, hbody]
  rfl

/-- Differences of a product, and a logical operator after them. -/
theorem Program.parse_infix_difference :
    IsIdentifier ['a'] ∧ (∀ x ∈ ['b', 'c', 'd', 'e'], IsIdentifier [x]) ∧ ∃ p span e,
      Program.parse "a - b * c - d && e" = .ok p ∧ p.body = [.expression span e] ∧
        (Grouping.join (.logical .and)
          (.join (.binary .subtract)
            (.join (.binary .subtract) (.name ['a'])
              (.join (.binary .multiply) (.name ['b']) (.name ['c'])))
            (.name ['d']))
          (.name ['e'])).Describes e := by
  have hname (x : Char) (hx : Text.isIdentifierStart x = true) (hfree : [x] ∉ Token.reservedWords) :
      IsIdentifier [x] :=
    ⟨⟨x, [], rfl, hx⟩,
      List.forall_mem_singleton.mpr (Text.isIdentifierPart_of_isIdentifierStart hx), hfree⟩
  have ha : IsIdentifier ['a'] := hname 'a' (by decide) (by decide)
  have hnames : ∀ x ∈ ['b', 'c', 'd', 'e'], IsIdentifier [x] := by
    simp only [List.forall_mem_cons]
    exact ⟨hname 'b' (by decide) (by decide), hname 'c' (by decide) (by decide),
      hname 'd' (by decide) (by decide), hname 'e' (by decide) (by decide), List.forall_mem_nil _⟩
  let ops : Operands :=
    [(.binary .subtract, ['b']), (.binary .multiply, ['c']), (.binary .subtract, ['d']),
      (.logical .and, ['e'])]
  have hops : ∀ p ∈ ops, IsIdentifier p.2 := by
    simp only [ops, List.forall_mem_cons] at hnames ⊢
    exact ⟨hnames.1, hnames.2.1, hnames.2.2.1, hnames.2.2.2.1, List.forall_mem_nil _⟩
  have hclimb : (climb 1 (.name ['a']) ops).1 = .join (.logical .and)
      (.join (.binary .subtract)
        (.join (.binary .subtract) (.name ['a'])
          (.join (.binary .multiply) (.name ['b']) (.name ['c'])))
        (.name ['d']))
      (.name ['e']) := by
    decide +kernel
  have htext : String.ofList (['a'] ++ spaced ops) = "a - b * c - d && e" := by
    decide
  refine ⟨ha, hnames, ?_⟩
  rw [← hclimb, ← htext]
  exact Program.parse_infix ha hops

end

end ScriptEngine
