import ScriptEngine.Grammar.Match
import ScriptEngine.Proofs.Grammar.Scanning
import ScriptEngine.Proofs.Grammar.Reading

/-!
# Fuel for matching

Matching never runs out of fuel.  A token takes at least one character, so between two characters
only phrases that begin with one another are entered, and these are ordered: a phrase begins with
phrases of lower rank only.

## Main definitions

* `Pattern.nullable`, `Phrase.nullable` : what can match without taking a character.
* `Phrase.rank` : the order of the phrases that begin with one another.
* `Pattern.beginsBelow` : a pattern begins with phrases below a rank only.

## Main statements

* `Phrase.total_match` : enough fuel decides a phrase.
* `Parse.script_ne_exhausted` : every text is decided.
-/

namespace ScriptEngine

/-! ### Tokens take a character -/

namespace Token

theorem ne_nil_of_scanWord {words : List (List Char)} (hwords : [] ∉ words)
    {cs text rest : List Char} (h : scanWord words cs = some (text, rest)) : text ≠ [] := by
  simp only [scanWord, Option.ite_none_right_eq_some, List.contains_iff_mem, Option.some.injEq,
    Prod.mk.injEq] at h
  obtain ⟨hmem, rfl, -⟩ := h
  exact fun h => hwords (h ▸ hmem)

theorem ne_nil_of_scanName {cs text rest : List Char} (h : scanName cs = some (text, rest)) :
    text ≠ [] := by
  cases cs with
  | nil => cases h
  | cons c cs =>
    simp only [scanName, Option.ite_none_right_eq_some, Option.some.injEq, Prod.mk.injEq] at h
    obtain ⟨-, rfl, -⟩ := h
    exact List.cons_ne_nil _ _

theorem ne_nil_of_scanNumber {cs text rest : List Char} (h : scanNumber cs = some (text, rest)) :
    text ≠ [] := by
  rcases of_scanNumber h with h | h
  · obtain ⟨-, x, digits, -, rfl, -⟩ := of_scanHex h
    nofun
  · obtain ⟨-, significand, exponent, rfl, hs, -⟩ := of_scanDecimal h
    cases hs with
    | pointed => simp
    | whole hw hne => simp [hne]

theorem ne_nil_of_mem_spellings {t : Token} {text : List Char}
    (h : text ∈ t.spellings.map (·.text)) :
    text ≠ [] := by
  rintro rfl
  revert h
  cases t with
  | keyword => nofun
  | _ => decide

/-- A token takes at least one character. -/
theorem ne_nil_of_scan? {t : Token} {cs text rest : List Char}
    (h : t.scan? cs = some (text, rest)) :
    text ≠ [] := by
  unfold scan? at h
  split at h
  · simp only [scanIdentifier, Option.ite_none_left_eq_some] at h
    exact ne_nil_of_scanName h.2
  · exact ne_nil_of_scanName h
  · next k => exact ne_nil_of_scanWord (by cases k <;> decide) h
  · exact ne_nil_of_scanWord (by decide) h
  · exact ne_nil_of_scanWord (by decide) h
  · exact ne_nil_of_scanNumber h
  · obtain ⟨-, q, body, -, rfl⟩ := of_scanString h
    nofun
  · obtain ⟨-, body, flags, rfl, -⟩ := of_scanRegularExpression h
    nofun
  · exact ne_nil_of_mem_spellings (of_scanOperator h).2

end Token

/-! ### What can be empty -/

/-- The phrases that can match without taking a character. -/
def Phrase.nullable : Phrase → Bool
  | .script | .functionBody | .arrayElement => true
  | _ => false

/-- Whether a pattern can match without taking a character. -/
def Pattern.nullable : Pattern → Bool
  | .chars text => text.isEmpty
  | .token _ => false
  | .phrase p => p.nullable
  | .seq a b => a.nullable && b.nullable
  | .alt a b => a.nullable || b.nullable
  | .start | .finish | .many _ | .optional _ | .ahead _ | .without _ => true

theorem Phrase.nullable_pattern (p : Phrase) : p.pattern.nullable = p.nullable := by
  cases p <;> rfl

/-- The order of the phrases that begin with one another. -/
def Phrase.rank : Phrase → Nat
  | .variableDeclarationList | .primaryExpression => 1
  | .lhsExpression | .memberExpression => 2
  | .postfixExpression | .forInBinding => 3
  | .unaryExpression => 4
  | .multiplicativeExpression => 5
  | .additiveExpression => 6
  | .shiftExpression => 7
  | .relationalExpression => 8
  | .equalityExpression => 9
  | .bitwiseAndExpression => 10
  | .bitwiseXorExpression => 11
  | .bitwiseOrExpression => 12
  | .logicalAndExpression => 13
  | .logicalOrExpression => 14
  | .conditionalExpression => 15
  | .assignmentExpression => 16
  | .expression | .arrayElement => 17
  | .expressionStatement | .forInit | .forTest | .forUpdate => 18
  | .script | .functionBody => 19
  | _ => 0

theorem Phrase.rank_lt (p : Phrase) : p.rank < 64 := by
  cases p <;> decide

namespace Pattern

/-- A pattern begins with phrases below a rank only. -/
def beginsBelow (n : Nat) : Pattern → Bool
  | .phrase p => p.rank < n
  | .seq a b => a.beginsBelow n && (!a.nullable || b.beginsBelow n)
  | .alt a b => a.beginsBelow n && b.beginsBelow n
  | .many a | .optional a | .ahead a | .without a => a.beginsBelow n
  | .start | .finish | .chars _ | .token _ => true

/-- Whatever a pattern repeats takes a character. -/
def repeatsProgress : Pattern → Bool
  | .many a => !a.nullable && a.repeatsProgress
  | .seq a b | .alt a b => a.repeatsProgress && b.repeatsProgress
  | .optional a | .ahead a | .without a => a.repeatsProgress
  | .phrase _ | .start | .finish | .chars _ | .token _ => true

end Pattern

theorem Phrase.beginsBelow_pattern (p : Phrase) : p.pattern.beginsBelow p.rank = true := by
  cases p <;> rfl

theorem Phrase.repeatsProgress_pattern (p : Phrase) : p.pattern.repeatsProgress = true := by
  cases p <;> rfl

/-! ### Progress -/

/-- Every match of a matcher leaves a rest that is no longer, and shorter if it must take a
character. -/
def Matcher.Advances (m : Matcher) (nullable : Bool) : Prop :=
  ∀ ⦃wanted furthest c trees next furthest'⦄,
    m wanted furthest c = ⟨.matched trees next, furthest'⟩ →
    next.rest.length ≤ c.rest.length ∧ (nullable = false → next.rest.length < c.rest.length)

theorem Cursor.length_skip (c : Cursor) : c.skip.rest.length ≤ c.rest.length := by
  obtain ⟨text, h, -⟩ := c.leads_skip
  simp [h]

theorem advances_repeatFrom {m : Matcher} {nullable : Bool} (hm : m.Advances nullable)
    {wanted : Bool} {fuel furthest furthest' : Nat} {l trees : List Tree} {c next : Cursor}
    (h : repeatFrom m wanted fuel furthest l c = ⟨.matched trees next, furthest'⟩) :
    next.rest.length ≤ c.rest.length := by
  induction fuel generalizing furthest l c with
  | zero => cases h
  | succ fuel ih =>
    simp only [repeatFrom] at h
    split at h
    · next hmatch => exact (ih h).trans ((hm hmatch).1.trans c.length_skip)
    · cases h
      rfl
    · cases h

theorem Pattern.advances_match {phrase : Phrase → Matcher}
    (hphrase : ∀ p, (phrase p).Advances p.nullable) :
    ∀ p : Pattern, (p.match_ phrase).Advances p.nullable
  | .start => by
    intro wanted furthest c trees next furthest' h
    simp only [match_] at h
    split at h <;> cases h
    exact ⟨le_rfl, fun h => by cases h⟩
  | .finish => by
    intro wanted furthest c trees next furthest' h
    have h := matched_of_record h
    dsimp only at h
    split at h <;> cases h
    exact ⟨le_rfl, fun h => by cases h⟩
  | .chars text => by
    intro wanted furthest c trees next furthest' h
    simp only [match_] at h
    split at h <;> cases h
    next hrest =>
    rw [Token.after?_eq_some hrest]
    simp [Cursor.advance, nullable, List.length_pos_iff]
  | .token t => by
    intro wanted furthest c trees next furthest' h
    have h := matched_of_record h
    simp only [scanAt] at h
    split at h <;> cases h
    next text rest hscan =>
    rw [Token.eq_append_of_scan? t hscan]
    simp [Cursor.advance, List.length_pos_iff, Token.ne_nil_of_scan? hscan]
  | .phrase p => hphrase p
  | .seq a b => by
    intro wanted furthest c trees next furthest' h
    simp only [match_] at h
    split at h
    · next d _ ha =>
      have ha := advances_match hphrase a ha
      split at h
      · next hb =>
        cases h
        have hb := advances_match hphrase b hb
        have hskip := d.length_skip
        refine ⟨by omega, fun hnull => ?_⟩
        rcases Bool.and_eq_false_iff.mp hnull with hnull | hnull
        · have := ha.2 hnull
          omega
        · have := hb.2 hnull
          omega
      · next hnot => exact absurd h (hnot _ _ _)
    · next hnot => exact absurd h (hnot _ _ _)
  | .alt a b => by
    intro wanted furthest c trees next furthest' h
    simp only [match_] at h
    split at h
    · have hb := advances_match hphrase b h
      exact ⟨hb.1, fun hnull => hb.2 (Bool.or_eq_false_iff.mp hnull).2⟩
    · have ha := advances_match hphrase a h
      exact ⟨ha.1, fun hnull => ha.2 (Bool.or_eq_false_iff.mp hnull).1⟩
  | .many a => by
    intro wanted furthest c trees next furthest' h
    simp only [match_] at h
    split at h
    · next ha =>
      exact ⟨(advances_repeatFrom (advances_match hphrase a) h).trans
        (advances_match hphrase a ha).1, fun h => by cases h⟩
    · cases h
      exact ⟨le_rfl, fun h => by cases h⟩
    · cases h
  | .optional a => by
    intro wanted furthest c trees next furthest' h
    simp only [match_] at h
    split at h
    · cases h
      exact ⟨le_rfl, fun h => by cases h⟩
    · exact ⟨(advances_match hphrase a h).1, fun h => by cases h⟩
  | .ahead a => by
    intro wanted furthest c trees next furthest' h
    simp only [match_] at h
    split at h
    · cases h
      exact ⟨le_rfl, fun h => by cases h⟩
    · next hnot => exact absurd h (hnot _ _ _)
  | .without a => by
    intro wanted furthest c trees next furthest' h
    simp only [match_] at h
    split at h <;> cases h
    exact ⟨le_rfl, fun h => by cases h⟩

theorem Phrase.advances_match (fuel : Nat) : ∀ p, (Phrase.match_ fuel p).Advances p.nullable := by
  induction fuel with
  | zero => exact fun p wanted furthest c trees next furthest' h => by cases h
  | succ fuel ih =>
    intro p wanted furthest c trees next furthest' h
    have h := matched_of_record h
    rw [← p.nullable_pattern]
    have hp := Pattern.advances_match ih p.pattern
    cases ha : p.pattern.match_ (Phrase.match_ fuel) wanted furthest c with
    | mk outcome reached =>
      rw [ha] at h
      cases outcome with
      | matched trees d => cases h; exact hp ha
      | failed => cases h
      | exhausted => cases h

/-! ### Enough fuel -/

/-- A matcher decides a place. -/
def Matcher.Total (m : Matcher) (c : Cursor) : Prop :=
  ∀ wanted furthest, (m wanted furthest c).outcome ≠ .exhausted

theorem total_repeatFrom {m : Matcher} (hm : m.Advances false) {wanted : Bool} {fuel : Nat}
    {c : Cursor} (htotal : ∀ d : Cursor, d.rest.length ≤ c.rest.length → m.Total d)
    (hfuel : c.rest.length < fuel) (furthest : Nat) (trees : List Tree) :
    (repeatFrom m wanted fuel furthest trees c).outcome ≠ .exhausted := by
  induction fuel generalizing furthest trees c with
  | zero => omega
  | succ fuel ih =>
    have hskip := c.length_skip
    simp only [repeatFrom]
    split
    · next next _ hmatch =>
      have := (hm hmatch).2 rfl
      exact ih (fun d hd => htotal d (by omega)) (by omega) _ _
    · rintro ⟨⟩
    · next hmatch => exact absurd (by rw [hmatch]) (htotal _ hskip wanted furthest)

/-- A pattern is decided if the phrases that it begins with are decided here and all phrases are
decided further on. -/
theorem Pattern.total_match {phrase : Phrase → Matcher}
    (hadvances : ∀ p, (phrase p).Advances p.nullable) {n length : Nat}
    (hhere : ∀ p, p.rank < n → ∀ c : Cursor, c.rest.length ≤ length → (phrase p).Total c)
    (hlater : ∀ p, ∀ c : Cursor, c.rest.length < length → (phrase p).Total c) :
    ∀ p : Pattern, p.repeatsProgress = true → ∀ c : Cursor,
      c.rest.length < length ∨ c.rest.length ≤ length ∧ p.beginsBelow n = true →
      (p.match_ phrase).Total c
  | .start => fun _ c _ wanted furthest => by
    simp only [match_]
    split <;> rintro ⟨⟩
  | .finish => fun _ c _ wanted furthest => by
    simp only [match_, Attempt.outcome_record]
    split <;> rintro ⟨⟩
  | .chars text => fun _ c _ wanted furthest => by
    simp only [match_]
    split <;> rintro ⟨⟩
  | .token t => fun _ c _ wanted furthest => by
    simp only [match_, Attempt.outcome_record, scanAt]
    split <;> rintro ⟨⟩
  | .phrase p => fun _ c hc => by
    rcases hc with hc | ⟨hc, hrank⟩
    · exact hlater p c hc
    · exact hhere p (by simpa [beginsBelow] using hrank) c hc
  | .seq a b => fun hrepeats c hc wanted furthest => by
    simp only [repeatsProgress, Bool.and_eq_true] at hrepeats
    simp only [beginsBelow, Bool.and_eq_true, Bool.or_eq_true, Bool.not_eq_true'] at hc
    have ha := total_match hadvances hhere hlater a hrepeats.1 c
        (hc.imp_right (And.imp_right And.left))
    simp only [match_]
    split
    · next d _ hmatch =>
      have hadv := advances_match hadvances a hmatch
      have hskip := d.length_skip
      have hd : d.skip.rest.length < length ∨ d.skip.rest.length ≤ length ∧
          b.beginsBelow n = true := by
        rcases hc with hc | ⟨hc, -, hnull | hb⟩
        · exact .inl (by omega)
        · have := hadv.2 hnull
          exact .inl (by omega)
        · exact .inr ⟨by omega, hb⟩
      split
      · rintro ⟨⟩
      · exact total_match hadvances hhere hlater b hrepeats.2 _ hd wanted _
    · exact ha wanted furthest
  | .alt a b => fun hrepeats c hc wanted furthest => by
    simp only [repeatsProgress, Bool.and_eq_true] at hrepeats
    simp only [beginsBelow, Bool.and_eq_true] at hc
    simp only [match_]
    split
    · exact total_match hadvances hhere hlater b hrepeats.2 c
        (hc.imp_right (And.imp_right And.right)) _ _
    · exact total_match hadvances hhere hlater a hrepeats.1 c
        (hc.imp_right (And.imp_right And.left)) _ _
  | .many a => fun hrepeats c hc wanted furthest => by
    simp only [repeatsProgress, Bool.and_eq_true, Bool.not_eq_true'] at hrepeats
    have ha := total_match hadvances hhere hlater a hrepeats.2
    have hadv := advances_match hadvances a
    rw [hrepeats.1] at hadv
    simp only [match_]
    split
    · next d _ hmatch =>
      have := (hadv hmatch).2 rfl
      exact total_repeatFrom hadv (fun e he => ha e (.inl (by omega))) (by omega) _ _
    · rintro ⟨⟩
    · next hmatch => exact absurd (by rw [hmatch]) (ha c hc wanted furthest)
  | .optional a => fun hrepeats c hc wanted furthest => by
    simp only [match_]
    split
    · rintro ⟨⟩
    · exact total_match hadvances hhere hlater a hrepeats c hc wanted furthest
  | .ahead a => fun hrepeats c hc wanted furthest => by
    simp only [match_]
    split
    · rintro ⟨⟩
    · exact total_match hadvances hhere hlater a hrepeats c hc wanted furthest
  | .without a => fun hrepeats c hc wanted furthest => by
    simp only [match_]
    split
    · rintro ⟨⟩
    · rintro ⟨⟩
    · next hmatch =>
      exact absurd (by rw [hmatch])
        (total_match hadvances hhere hlater a hrepeats c hc (!wanted) furthest)

/-- Enough fuel decides a phrase. -/
theorem Phrase.total_match {fuel : Nat} :
    ∀ (p : Phrase) (c : Cursor), 64 * c.rest.length + p.rank < fuel →
      (Phrase.match_ fuel p).Total c := by
  induction fuel with
  | zero => omega
  | succ fuel ih =>
    intro p c hfuel wanted furthest
    have hpattern : (p.pattern.match_ (Phrase.match_ fuel)).Total c := by
      have hhere (q : Phrase) (hq : q.rank < p.rank) (d : Cursor)
          (hd : d.rest.length ≤ c.rest.length) : (Phrase.match_ fuel q).Total d :=
        ih q d (by omega)
      have hlater (q : Phrase) (d : Cursor) (hd : d.rest.length < c.rest.length) :
          (Phrase.match_ fuel q).Total d := by
        have := q.rank_lt
        exact ih q d (by omega)
      exact Pattern.total_match (Phrase.advances_match fuel) hhere hlater p.pattern
        p.repeatsProgress_pattern c (.inr ⟨le_rfl, p.beginsBelow_pattern⟩)
    simp only [Phrase.match_, Attempt.outcome_record]
    have h := hpattern wanted furthest
    revert h
    cases (p.pattern.match_ (Phrase.match_ fuel) wanted furthest c).outcome <;> simp [Outcome.wrap]

/-- Every text is decided. -/
theorem Parse.script_ne_exhausted (source : List Char) :
    (Parse.script source).outcome ≠ .exhausted := by
  refine Phrase.total_match .script ⟨0, source⟩ ?_ true 0
  have := Phrase.rank_lt .script
  simp only [Parse.fuel]
  omega

end ScriptEngine
