import ScriptEngine.Proofs.Grammar.Shape
import ScriptEngine.Script.Build

/-!
# String literals at the head of an expression

What an expression looks like of which the first token is a string literal: it is this literal and
nothing else, with blanks and comments after it, or something solid comes after the literal.  Which
of them it is can be seen from the pattern of each phrase.  A pattern is *plain* if its matches
begin with a character that is neither white space nor a semicolon nor a quote, and it is *headed*
if its matches are expressions, or begin with one.

## Main definitions

* `isSolid`, `isPlainStart` : characters that are neither white space nor a semicolon.
* `Pattern.isPlain`, `Pattern.isHeaded` : patterns by what their matches begin with.
* `Cursor.Opens` : what stands at the head of an expression.

## Main statements

* `Token.isPlainStart_of_scan?` : tokens other than strings begin with a plain character.
* `Phrase.opens_match` : how an expression begins.
-/

namespace ScriptEngine

/-! ### Characters -/

/-- Neither white space nor a semicolon. -/
def isSolid (c : Char) : Bool :=
  !Text.isWhiteSpace c && c != ';'

/-- A solid character that is no quote. -/
def isPlainStart (c : Char) : Bool :=
  isSolid c && c != '"' && c != '\''

/-- The codes of white space, the semicolon and the quotes. -/
def otherCodes : List Nat :=
  [0x09, 0x0A, 0x0B, 0x0C, 0x0D, 0x20, 0x85, 0xA0, 0x1680, 0x2000, 0x2001, 0x2002, 0x2003,
    0x2004, 0x2005,
    0x2006, 0x2007, 0x2008, 0x2009, 0x200A, 0x2028, 0x2029, 0x202F, 0x205F, 0x3000,
      0x3B, 0x22, 0x27]

theorem mem_otherCodes {c : Char} (h : isPlainStart c = false) : c.toNat ∈ otherCodes := by
  have hchar (d : Char) (hd : c = d) : c.toNat = d.toNat := by rw [hd]
  simp only [isPlainStart, isSolid, Text.isWhiteSpace, Bool.and_eq_false_iff, Bool.not_eq_false',
    bne_eq_false_iff_eq, Bool.or_eq_true, Bool.and_eq_true, decide_eq_true_eq, beq_iff_eq] at h
  simp only [otherCodes, List.mem_cons, List.not_mem_nil, or_false]
  rcases h with ((hspace | hsemicolon) | hdouble) | hsingle
  · omega
  · have := hchar ';' hsemicolon
    simp at this
    omega
  · have := hchar '"' hdouble
    simp at this
    omega
  · have := hchar '\'' hsingle
    simp at this
    omega

/-- A class without any of the other characters consists of plain ones. -/
theorem isPlainStart_of_class {p : Char → Bool}
    (hp : otherCodes.all fun n => !p (Char.ofNat n)) {c : Char} (hc : p c = true) :
    isPlainStart c = true := by
  by_contra h
  have hnot := List.all_eq_true.mp hp _ (mem_otherCodes (Bool.eq_false_iff.mpr h))
  rw [Char.ofNat_toNat, hc] at hnot
  cases hnot

theorem isPlainStart_of_isIdentifierStart {c : Char} (h : Text.isIdentifierStart c = true) :
    isPlainStart c = true :=
  isPlainStart_of_class (by decide +kernel) h

theorem isPlainStart_of_isDigit {c : Char} (h : c.isDigit = true) : isPlainStart c = true :=
  isPlainStart_of_class (by decide) h

/-- A text begins with a plain character. -/
def BeginsPlain (text : List Char) : Prop :=
  ∃ x more, text = x :: more ∧ isPlainStart x = true

theorem BeginsPlain.append {text : List Char} (h : BeginsPlain text) (more : List Char) :
    BeginsPlain (text ++ more) := by
  obtain ⟨x, rest, rfl, hx⟩ := h
  exact ⟨x, rest ++ more, rfl, hx⟩

instance (text : List Char) : Decidable (BeginsPlain text) :=
  match text with
  | [] => .isFalse nofun
  | x :: more => decidable_of_iff (isPlainStart x = true)
    ⟨fun h => ⟨x, more, rfl, h⟩, fun ⟨_, _, h, hx⟩ => by cases h; exact hx⟩

/-! ### Tokens -/

namespace Token

theorem beginsPlain_of_scanName {cs text rest : List Char} (h : scanName cs = some (text, rest)) :
    BeginsPlain text := by
  cases cs with
  | nil => cases h
  | cons c cs =>
    rw [scanName] at h
    split at h
    · next hc =>
      cases h
      exact ⟨c, _, rfl, isPlainStart_of_isIdentifierStart hc⟩
    · cases h

theorem beginsPlain_of_scanWord {words : List (List Char)} (hwords : ∀ w ∈ words, BeginsPlain w)
    {cs text rest : List Char} (h : scanWord words cs = some (text, rest)) : BeginsPlain text := by
  rw [scanWord] at h
  split at h
  · next hmem =>
    cases h
    exact hwords _ (List.contains_iff_mem.mp hmem)
  · cases h

theorem beginsPlain_of_significand {text : List Char} (h : IsSignificand text) :
    BeginsPlain text := by
  have hdigit {d : Char} {ds : List Char} (h : ∀ c ∈ d :: ds, c.isDigit = true) :
      isPlainStart d = true :=
    isPlainStart_of_isDigit (h d List.mem_cons_self)
  rcases h with @⟨whole, fraction, hwhole, _, _⟩ | ⟨hwhole, hne⟩
  · cases whole with
    | nil => exact ⟨'.', fraction, rfl, by decide⟩
    | cons d whole => exact ⟨d, _, rfl, hdigit hwhole⟩
  · cases text with
    | nil => exact absurd rfl hne
    | cons d whole => exact ⟨d, _, rfl, hdigit hwhole⟩

theorem beginsPlain_of_scanNumber {cs text rest : List Char}
    (h : scanNumber cs = some (text, rest)) :
    BeginsPlain text := by
  rcases of_scanNumber h with h | h
  · obtain ⟨-, x, digits, -, rfl, -⟩ := of_scanHex h
    exact ⟨'0', _, rfl, by decide⟩
  · obtain ⟨-, digits, exponent, rfl, hdigits, -⟩ := of_scanDecimal h
    exact (beginsPlain_of_significand hdigits).append exponent

theorem beginsPlain_of_scanOperator {spellings : List Spelling}
    (hspellings : ∀ text ∈ spellings.map (·.text), BeginsPlain text) {cs text rest : List Char}
    (h : scanOperator spellings cs = some (text, rest)) : BeginsPlain text :=
  hspellings _ (of_scanOperator h).2

/-- All tokens but string literals begin with a plain character. -/
theorem beginsPlain_of_scan? {t : Token} (ht : t ≠ .stringLiteral) {cs text rest : List Char}
    (h : t.scan? cs = some (text, rest)) : BeginsPlain text := by
  cases t with
  | stringLiteral => exact absurd rfl ht
  | identifier =>
    rw [scan?, scanIdentifier] at h
    split at h
    · cases h
    · exact beginsPlain_of_scanName h
  | identifierName => exact beginsPlain_of_scanName h
  | keyword k => exact beginsPlain_of_scanWord (by cases k <;> decide) h
  | nullLiteral => exact beginsPlain_of_scanWord (by decide) h
  | booleanLiteral => exact beginsPlain_of_scanWord (by decide) h
  | numericLiteral => exact beginsPlain_of_scanNumber h
  | regularExpressionLiteral =>
    obtain ⟨-, body, flags, rfl, -⟩ := of_scanRegularExpression h
    exact ⟨'/', _, rfl, by decide⟩
  | _ => exact beginsPlain_of_scanOperator (by decide) h

end Token

/-! ### Plain patterns -/

/-- The phrases that begin with a mark or a keyword, as far as expressions are made of them. -/
def Phrase.isPlain : Phrase → Bool
  | .arrayLiteral | .objectLiteral | .functionExpression | .parenthesizedExpression
  | .newExpressionWithArguments | .newExpression | .arguments | .dotMember | .computedMember => true
  | _ => false

/-- The matches of the pattern begin with a plain character. -/
def Pattern.isPlain : Pattern → Bool
  | .chars text => decide (BeginsPlain text)
  | .token t => t != .stringLiteral
  | .phrase p => p.isPlain
  | .seq a _ => a.isPlain
  | .alt a b => a.isPlain && b.isPlain
  | _ => false

theorem Phrase.isPlain_pattern {p : Phrase} (h : p.isPlain = true) : p.pattern.isPlain = true := by
  cases p <;> first | rfl | cases h

/-- What a matcher takes begins with a plain character. -/
def Matcher.TakesPlain (source : List Char) (m : Matcher) : Prop :=
  ∀ ⦃wanted furthest c trees next furthest'⦄, c.On source →
    m wanted furthest c = ⟨.matched trees next, furthest'⟩ → ∃ text, c.Leads text next ∧
      BeginsPlain text

section

variable {source : List Char} {phrase : Phrase → Matcher}

theorem Pattern.takesPlain_match (hreads : ∀ p, (phrase p).Reads source (Pattern.phrase p).Shape)
    (hphrase : ∀ p : Phrase, p.isPlain = true → (phrase p).TakesPlain source) :
    ∀ p : Pattern, p.isPlain = true → (p.match_ phrase).TakesPlain source
  | .chars text, hp => by
    intro wanted furthest c trees next furthest' hc h
    simp only [match_] at h
    split at h
    · next rest hrest =>
      cases h
      exact ⟨text, c.leads_advance (Token.after?_eq_some hrest), of_decide_eq_true hp⟩
    · cases h
  | .token t, hp => by
    intro wanted furthest c trees next furthest' hc h
    simp only [match_] at h
    have h := matched_of_record h
    simp only [scanAt] at h
    split at h
    · next text rest hscan =>
      cases h
      exact ⟨text, c.leads_advance (Token.eq_append_of_scan? t hscan),
        Token.beginsPlain_of_scan? (bne_iff_ne.mp hp) hscan⟩
    · cases h
  | .phrase p, hp => hphrase p hp
  | .seq a b, hp => by
    intro wanted furthest c trees next furthest' hc h
    simp only [match_] at h
    split at h
    · next d _ ha =>
      obtain ⟨text, htext, hplain⟩ := takesPlain_match hreads hphrase a hp hc ha
      split at h
      · next hb =>
        cases h
        obtain ⟨gap, hgap⟩ := d.leads_skip
        obtain ⟨more, hmore⟩ := (Pattern.reads_match hreads b ((htext.on hc).skip) hb).leads
        exact ⟨_, (htext.trans hgap).trans hmore, (hplain.append gap).append more⟩
      · next hnot => exact absurd h (hnot _ _ _)
    · next hnot => exact absurd h (hnot _ _ _)
  | .alt a b, hp => by
    intro wanted furthest c trees next furthest' hc h
    rw [isPlain, Bool.and_eq_true] at hp
    simp only [match_] at h
    split at h
    · exact takesPlain_match hreads hphrase b hp.2 hc h
    · exact takesPlain_match hreads hphrase a hp.1 hc h

end

/-- The match of a phrase is that of its pattern, as one tree. -/
theorem Phrase.matched_children {fuel : Nat} {p : Phrase} {wanted : Bool} {furthest furthest' : Nat}
    {c next : Cursor} {trees : List Tree}
    (h : Phrase.match_ (fuel + 1) p wanted furthest c = ⟨.matched trees next, furthest'⟩) :
    ∃ children f, p.pattern.match_ (Phrase.match_ fuel) wanted furthest c =
      ⟨.matched children next, f⟩ ∧
      trees = [.node p ⟨c.offset, next.offset⟩ children] := by
  rw [Phrase.match_] at h
  have h := matched_of_record h
  dsimp only at h
  cases hmatch : p.pattern.match_ (Phrase.match_ fuel) wanted furthest c with
  | mk outcome f =>
    rw [hmatch] at h
    cases outcome with
    | matched children d =>
      cases h
      exact ⟨children, f, rfl, rfl⟩
    | failed => cases h
    | exhausted => cases h

/-- What a plain phrase takes begins with a plain character. -/
theorem Phrase.takesPlain_match (source : List Char) (fuel : Nat) :
    ∀ p : Phrase, p.isPlain = true → (Phrase.match_ fuel p).TakesPlain source := by
  induction fuel with
  | zero =>
    intro p _ wanted furthest c trees next furthest' _ h
    cases h
  | succ fuel ih =>
    intro p hp wanted furthest c trees next furthest' hc h
    obtain ⟨children, f, hmatch, -⟩ := Phrase.matched_children h
    exact Pattern.takesPlain_match (Phrase.reads_match source fuel) ih _
      (isPlain_pattern hp) hc hmatch

/-! ### Headed patterns -/

/-- The phrases that may be a string literal and nothing else. -/
def Phrase.isHeaded : Phrase → Bool
  | .primaryExpression | .lhsExpression | .postfixExpression | .unaryExpression
  | .multiplicativeExpression | .additiveExpression | .shiftExpression | .relationalExpression
  | .equalityExpression | .bitwiseAndExpression | .bitwiseXorExpression | .bitwiseOrExpression
  | .logicalAndExpression | .logicalOrExpression | .conditionalExpression | .assignmentExpression
  | .expression => true
  | _ => false

/-- The matches of the pattern take nothing, or what begins with a plain character. -/
def Pattern.isSuffix : Pattern → Bool
  | .optional a => a.isPlain
  | .many a => a.isPlain
  | p => p.isPlain

/-- The matches of the pattern begin with an expression. -/
def Pattern.isHeaded : Pattern → Bool
  | .token _ => true
  | .phrase p => p.isHeaded || p.isPlain
  | .seq a b => a.isPlain || a.isHeaded && b.isSuffix
  | .alt a b => a.isHeaded && b.isHeaded
  | _ => false

theorem Phrase.isHeaded_pattern {p : Phrase} (h : p.isHeaded = true) :
    p.pattern.isHeaded = true := by
  cases p <;> first | rfl | cases h

/-- The position of the part of an expression that has only one. -/
def Phrase.inner : Phrase → Position
  | .expression => .assignment
  | .assignmentExpression => .conditional
  | .unaryExpression => .postfixed
  | .postfixExpression => .leftHand
  | .lhsExpression => .head
  | .primaryExpression => .atom
  | _ => .operand

/-- The only part of an expression is one at its position. -/
theorem Phrase.takes_inner {p : Phrase} (hp : p.isHeaded = true) {t : Tree}
    (h : p.pattern.Shape [t]) :
    p.inner.Takes t := by
  have hsole {a b : Pattern} (h : (Pattern.seq a b).Shape [t])
      (ha : ∀ ts, a.Shape ts → ∃ u, ts = [u] ∧ p.inner.Takes u) : p.inner.Takes t := by
    obtain ⟨l, m, heq, hl, -⟩ := h
    obtain ⟨u, rfl, hu⟩ := ha l hl
    rw [(List.cons.inj heq).1]
    exact hu
  have hphrase {q : Phrase} (hq : p.inner.phrases.contains q = true) (ts : List Tree)
      (h : (Pattern.phrase q).Shape ts) : ∃ u, ts = [u] ∧ p.inner.Takes u := by
    obtain ⟨span, children, rfl⟩ := h
    exact ⟨_, rfl, hq⟩
  cases p
  case primaryExpression =>
    obtain ⟨u, heq, hu⟩ := Pattern.shape_primaryExpression h
    rw [(List.cons.inj heq).1]
    exact hu
  case lhsExpression =>
    exact hsole h (Pattern.shape_choice_phrases [.newExpression, .primaryExpression] (by
      simp [inner, Position.Takes, Position.admits, Position.phrases]))
  -- An operator would leave a second part.
  case assignmentExpression =>
    rcases h with h | ⟨span, children, heq⟩
    · obtain ⟨_, _, _, heq, h⟩ := Pattern.shape_phrase_seq.mp h
      obtain ⟨_, _, _, rfl, -⟩ := Pattern.shape_token_seq.mp h
      cases heq
    · rw [(List.cons.inj heq).1]
      rfl
  case unaryExpression =>
    rcases h with h | ⟨span, children, heq⟩
    · obtain ⟨_, _, _, heq, _, _, rfl⟩ := Pattern.shape_token_seq.mp h
      cases heq
    · rw [(List.cons.inj heq).1]
      rfl
  all_goals first
    | exact hsole h (hphrase rfl)
    | cases hp

/-- The only part of an expression is the expression. -/
theorem Build.expr_headed {source : List Char} {p : Phrase} {position : Position} {t : Tree}
    {span : Span} (hp : p.isHeaded = true) (hposition : position.admits (.node p span [t]) = true)
    (hkeywords : Tree.hasKeywords p [t] = true) (strict : Bool) :
    expr source position strict (.node p span [t]) = expr source p.inner strict t := by
  have hcheck : (position.phrases.contains p && Tree.hasKeywords p [t]) = true := by
    rw [hkeywords, Bool.and_true]
    exact hposition
  conv => lhs; unfold expr
  rw [if_pos hcheck]
  cases p <;> first | exact absurd hp (by decide) | simp [Phrase.inner, Phrase.infixes,
    withSuffixes, chain]

/-- What stands at the head of an expression, given the trees that it left behind and the place
after it. -/
inductive Cursor.Opens (source : List Char) (c : Cursor) (trees : List Tree) (next : Cursor) : Prop
  /-- The expression does not begin with a string literal. -/
  | plain (h : BeginsPlain c.rest)
  /-- The expression is a string literal. -/
  | sole {token rest gap : List Char} {t : Tree}
      (scan : Token.scanString c.rest = some (token, rest))
      (leads : c.Leads (token ++ gap) next) (blank : '/' ∈ gap ∨ ';' ∉ gap) (trees : trees = [t])
      (built : ∀ position strict, position.Takes t → Build.expr source position strict t =
        pure (.literal ⟨c.offset, c.offset + byteSize token⟩ (.string (stringLiteralValue token))))
  /-- Something solid comes after a string literal. -/
  | longer {token rest more : List Char} (scan : Token.scanString c.rest = some (token, rest))
      (leads : c.Leads (token ++ more) next) (solid : ∃ x ∈ more, isSolid x = true)

/-- What a matcher leaves behind begins with an expression. -/
def Matcher.Opens (source : List Char) (m : Matcher) : Prop :=
  ∀ ⦃wanted furthest c trees next furthest'⦄, c.On source →
    m wanted furthest c = ⟨.matched trees next, furthest'⟩ → c.Opens source trees next

section

variable {source : List Char} {c d next : Cursor} {trees : List Tree}

theorem Cursor.Leads.further {token gap more : List Char} (h : c.Leads (token ++ gap) d)
    (h' : d.Leads more next) : c.Leads (token ++ (gap ++ more)) next := by
  rw [← List.append_assoc]
  exact h.trans h'

theorem BeginsPlain.exists_solid {text : List Char} (h : BeginsPlain text) :
    ∃ x ∈ text, isSolid x = true := by
  obtain ⟨x, more, rfl, hx⟩ := h
  simp only [isPlainStart, Bool.and_eq_true] at hx
  exact ⟨x, List.mem_cons_self, hx.1.1⟩

theorem Cursor.opens_of_takesPlain {text : List Char} (hleads : c.Leads text next)
    (h : BeginsPlain text) :
    c.Opens source trees next :=
  .plain (hleads.1 ▸ h.append next.rest)

/-- Blanks without a slash have no semicolon. -/
theorem Cursor.gap_skip (c : Cursor) : ∃ gap, c.Leads gap c.skip ∧ ('/' ∈ gap ∨ ';' ∉ gap) := by
  obtain ⟨gap, hgap⟩ := c.leads_skip
  refine ⟨gap, hgap, ?_⟩
  have key (offset : Nat) (cs gap : List Char) (h : cs = gap ++ (skipBlanks offset cs).rest) :
      '/' ∈ gap ∨ ';' ∉ gap := by
    fun_induction skipBlanks offset cs generalizing gap with
    | case1 => simp_all
    | case2 offset rest d hclose ih =>
      cases gap with
      | nil => exact .inr (by simp)
      | cons x gap => exact .inl (by rw [(List.cons.inj h).1]; exact List.mem_cons_self)
    | case3 => simp_all
    | case4 offset rest d ih =>
      cases gap with
      | nil => exact .inr (by simp)
      | cons x gap => exact .inl (by rw [(List.cons.inj h).1]; exact List.mem_cons_self)
    | case5 offset x rest _ _ hblank ih =>
      cases gap with
      | nil => exact .inr (by simp)
      | cons y gap =>
        obtain ⟨rfl, hrest⟩ := List.cons.inj h
        refine (ih gap hrest).imp (List.mem_cons_of_mem _) fun hnot hmem => ?_
        rcases List.mem_cons.mp hmem with rfl | hmem
        · revert hblank
          decide
        · exact hnot hmem
    | case6 => simp_all
  exact key c.offset c.rest gap hgap.1

/-- Blanks after the head of an expression. -/
theorem Cursor.Opens.skip (h : c.Opens source trees d) : c.Opens source trees d.skip := by
  obtain ⟨gap', hgap', hblank'⟩ := d.gap_skip
  cases h with
  | plain h => exact .plain h
  | sole scan leads blank trees built =>
    refine .sole scan (leads.further hgap') ?_ trees built
    rcases blank with hslash | hnot
    · exact .inl (List.mem_append_left _ hslash)
    · exact hblank'.imp (List.mem_append_right _) fun hnot' hmem =>
        (List.mem_append.mp hmem).elim hnot hnot'
  | longer scan leads solid =>
    obtain ⟨x, hx, hsolid⟩ := solid
    refine .longer scan (leads.further hgap') ⟨x, ?_, hsolid⟩
    exact List.mem_append_left _ hx

/-- More text after the head of an expression. -/
theorem Cursor.Opens.extend {text : List Char} {more : List Tree} (h : c.Opens source trees d)
    (hleads : d.Leads text next) (htext : BeginsPlain text) : c.Opens source more next := by
  cases h with
  | plain h => exact .plain h
  | sole scan leads blank trees built =>
    rename_i gap _
    obtain ⟨x, hx, hsolid⟩ := htext.exists_solid
    refine .longer scan (leads.further hleads) ⟨x, ?_, hsolid⟩
    exact List.mem_append_right _ hx
  | longer scan leads solid =>
    obtain ⟨x, hx, hsolid⟩ := solid
    refine .longer scan (leads.further hleads) ⟨x, ?_, hsolid⟩
    exact List.mem_append_left _ hx

variable {phrase : Phrase → Matcher}

/-- A suffix takes nothing or begins with a plain character. -/
theorem Pattern.takes_suffix (hreads : ∀ p, (phrase p).Reads source (Pattern.phrase p).Shape)
    (hplain : ∀ p : Phrase, p.isPlain = true → (phrase p).TakesPlain source) {p : Pattern}
    (hp : p.isSuffix = true) {wanted : Bool} {furthest furthest' : Nat} (hc : c.On source)
    (h : p.match_ phrase wanted furthest c = ⟨.matched trees next, furthest'⟩) :
    (trees = [] ∧ next = c) ∨ ∃ text, c.Leads text next ∧ BeginsPlain text := by
  unfold isSuffix at hp
  split at hp
  · next a =>
    simp only [match_] at h
    split at h
    · cases h
      exact .inl ⟨rfl, rfl⟩
    · exact .inr (takesPlain_match hreads hplain a hp hc h)
  · next a =>
    simp only [match_] at h
    split at h
    · next first d _ ha =>
      obtain ⟨text, htext, hbegins⟩ := takesPlain_match hreads hplain a hp hc ha
      have hfirst := reads_match hreads a hc ha
      obtain ⟨more, hmore⟩ := (reads_repeatFrom (reads_match hreads a) (htext.on hc)
        ⟨⟨[first], by simp, fun l hl => List.mem_singleton.mp hl ▸ hfirst.shape⟩, hfirst.parsed,
          [], .refl d⟩
        h).leads
      exact .inr ⟨_, htext.trans hmore, hbegins.append more⟩
    · cases h
      exact .inl ⟨rfl, rfl⟩
    · cases h
  · exact .inr (takesPlain_match hreads hplain p hp hc h)

theorem Pattern.opens_match (hreads : ∀ p, (phrase p).Reads source (Pattern.phrase p).Shape)
    (hplain : ∀ p : Phrase, p.isPlain = true → (phrase p).TakesPlain source)
    (hphrase : ∀ p : Phrase, p.isHeaded = true → (phrase p).Opens source) :
    ∀ p : Pattern, p.isHeaded = true → (p.match_ phrase).Opens source
  | .token t, _ => by
    intro wanted furthest c trees next furthest' hc h
    simp only [match_] at h
    have h := matched_of_record h
    simp only [scanAt] at h
    split at h
    · next text rest hscan =>
      cases h
      have hleads := c.leads_advance (Token.eq_append_of_scan? t hscan)
      by_cases ht : t = .stringLiteral
      · subst ht
        have hsole : c.Leads (text ++ []) (c.advance text rest) := by rwa [List.append_nil]
        refine .sole hscan hsole (.inr List.not_mem_nil) rfl fun position strict htakes => ?_
        rw [Build.expr, htakes.1]
        rfl
      · exact Cursor.opens_of_takesPlain hleads (Token.beginsPlain_of_scan? ht hscan)
    · cases h
  | .phrase p, hp => by
    intro wanted furthest c trees next furthest' hc h
    rw [isHeaded, Bool.or_eq_true] at hp
    rcases hp with hp | hp
    · exact hphrase p hp hc h
    · obtain ⟨text, hleads, hbegins⟩ := hplain p hp hc h
      exact Cursor.opens_of_takesPlain hleads hbegins
  | .seq a b, hp => by
    intro wanted furthest c trees next furthest' hc h
    by_cases ha : a.isPlain = true
    · obtain ⟨text, hleads, hbegins⟩ := takesPlain_match hreads hplain (.seq a b) ha hc h
      exact Cursor.opens_of_takesPlain hleads hbegins
    · simp only [isHeaded, ha, Bool.false_or, Bool.and_eq_true] at hp
      simp only [match_] at h
      split at h
      · next d _ hmatch =>
        have hopens := opens_match hreads hplain hphrase a hp.1 hc hmatch
        split at h
        · next hb =>
          cases h
          have hd := (reads_match hreads a hc hmatch).on hc
          rcases takes_suffix hreads hplain hp.2 hd.skip
              hb with ⟨rfl, rfl⟩ | ⟨text, hleads, hbegins⟩
          · simpa using hopens.skip
          · exact hopens.skip.extend hleads hbegins
        · next hnot => exact absurd h (hnot _ _ _)
      · next hnot => exact absurd h (hnot _ _ _)
  | .alt a b, hp => by
    intro wanted furthest c trees next furthest' hc h
    rw [isHeaded, Bool.and_eq_true] at hp
    simp only [match_] at h
    split at h
    · exact opens_match hreads hplain hphrase b hp.2 hc h
    · exact opens_match hreads hplain hphrase a hp.1 hc h

end

/-- An expression begins with something else than a string literal, or is one, or goes on after
it. -/
theorem Phrase.opens_match (source : List Char) (fuel : Nat) :
    ∀ p : Phrase, p.isHeaded = true → (Phrase.match_ fuel p).Opens source := by
  induction fuel with
  | zero =>
    intro p _ wanted furthest c trees next furthest' _ h
    cases h
  | succ fuel ih =>
    intro p hp wanted furthest c trees next furthest' hc h
    obtain ⟨children, f, hmatch, rfl⟩ := Phrase.matched_children h
    have hopens := Pattern.opens_match (Phrase.reads_match source fuel)
      (Phrase.takesPlain_match source fuel) ih _ (isHeaded_pattern hp) hc hmatch
    cases hopens with
    | plain h => exact .plain h
    | sole scan leads blank trees built =>
      subst trees
      have hread := Pattern.reads_match (Phrase.reads_match source fuel) _ hc hmatch
      refine .sole scan leads blank rfl fun position strict htakes => ?_
      rw [Build.expr_headed hp htakes (Tree.hasKeywords_of_shape hread.shape hread.parsed)]
      exact built _ strict (takes_inner hp hread.shape)
    | longer scan leads solid => exact .longer scan leads solid

end ScriptEngine
