import ScriptEngine.Proofs.Grammar.Fuel
import ScriptEngine.Proofs.Grammar.Lexical
import Mathlib.Logic.Relation

/-!
# Termination of parsing

Matching a script ends on every text.  A pattern calls others at the same place or further on, and
what it calls is smaller: less text is left, or it begins with phrases of lower rank only, or it is
a part of the pattern.  So a pattern that comes back to itself has taken a character in between, and
a repetition ends.

## Main definitions

* `Pattern.Takes` : a pattern matches from one place to another.
* `Goal.Calls` : what is tried at which place to match a pattern.
* `Goal.Below` : the order in which calls go down.

## Main statements

* `Phrase.match_of_le` : more fuel does not change what is decided.
* `Pattern.match_congr` : matching depends on phrases at the places of calls only.
* `Goal.Calls.below` : calls go down.
* `Parse.terminates` : parsing ends, as no rule calls itself and no repetition goes on without a
  character taken.
-/

namespace ScriptEngine

/-! ### More fuel -/

/-- What a matcher decides, another one decides in the same way. -/
def Matcher.Refines (m m' : Matcher) : Prop :=
  ∀ ⦃wanted furthest c⦄, (m wanted furthest c).outcome ≠ .exhausted →
    m' wanted furthest c = m wanted furthest c

/-- What is decided by a matcher in one attempt, another one decides in the same way. -/
theorem Matcher.Refines.eq {m m' : Matcher} (h : m.Refines m') {wanted : Bool}
    {furthest furthest' : Nat} {c : Cursor} {outcome : Outcome}
    (hm : m wanted furthest c = ⟨outcome, furthest'⟩) (hdecided : outcome ≠ .exhausted) :
    m' wanted furthest c = ⟨outcome, furthest'⟩ :=
  (h (by rw [hm]; exact hdecided)).trans hm

theorem Outcome.matched_ne_exhausted (trees : List Tree) (next : Cursor) :
    Outcome.matched trees next ≠ .exhausted := by
  simp

theorem Outcome.failed_ne_exhausted : Outcome.failed ≠ .exhausted := by
  simp

theorem refines_repeatFrom {m m' : Matcher} (h : m.Refines m') {wanted : Bool} {fuel furthest : Nat}
    {trees : List Tree} {c : Cursor}
    (hdecided : (repeatFrom m wanted fuel furthest trees c).outcome ≠ .exhausted) :
    repeatFrom m' wanted fuel furthest trees c = repeatFrom m wanted fuel furthest trees c := by
  induction fuel generalizing furthest trees c with
  | zero => rfl
  | succ fuel ih =>
    simp only [repeatFrom] at hdecided ⊢
    rcases hround : m wanted furthest c.skip with ⟨_ | _ | _, reached⟩
    · rw [hround] at hdecided
      rw [h.eq hround (Outcome.matched_ne_exhausted _ _)]
      exact ih hdecided
    · rw [h.eq hround Outcome.failed_ne_exhausted]
    · rw [hround] at hdecided
      exact absurd rfl hdecided

theorem Pattern.refines_match {m m' : Phrase → Matcher} (h : ∀ p, (m p).Refines (m' p)) :
    ∀ p : Pattern, (p.match_ m).Refines (p.match_ m')
  | .start | .finish | .chars _ | .token _ => fun _ _ _ _ => rfl
  | .phrase p => h p
  | .seq a b => by
    intro wanted furthest c hdecided
    simp only [match_] at hdecided ⊢
    rcases ha : a.match_ m wanted furthest c with ⟨_ | _ | _, reached⟩
    · rw [(refines_match h a).eq ha (Outcome.matched_ne_exhausted _ _)]
      rw [ha] at hdecided
      dsimp only at hdecided ⊢
      rw [refines_match h b]
      intro hb
      apply hdecided
      split <;> simp_all
    · rw [(refines_match h a).eq ha Outcome.failed_ne_exhausted]
    · rw [ha] at hdecided
      exact absurd rfl hdecided
  | .alt a b => by
    intro wanted furthest c hdecided
    simp only [match_] at hdecided ⊢
    rcases ha : a.match_ m wanted furthest c with ⟨_ | _ | _, reached⟩
    · rw [(refines_match h a).eq ha (Outcome.matched_ne_exhausted _ _)]
    · rw [(refines_match h a).eq ha Outcome.failed_ne_exhausted]
      rw [ha] at hdecided
      exact refines_match h b hdecided
    · rw [ha] at hdecided
      exact absurd rfl hdecided
  | .many a => by
    intro wanted furthest c hdecided
    simp only [match_] at hdecided ⊢
    rcases ha : a.match_ m wanted furthest c with ⟨_ | _ | _, reached⟩
    · rw [(refines_match h a).eq ha (Outcome.matched_ne_exhausted _ _)]
      rw [ha] at hdecided
      exact refines_repeatFrom (refines_match h a) hdecided
    · rw [(refines_match h a).eq ha Outcome.failed_ne_exhausted]
    · rw [ha] at hdecided
      exact absurd rfl hdecided
  | .optional a | .ahead a | .without a => by
    intro wanted furthest c hdecided
    simp only [match_] at hdecided ⊢
    rw [refines_match h a]
    intro ha
    apply hdecided
    split <;> simp_all

/-- What is decided with some fuel is decided in the same way with more. -/
theorem Phrase.match_of_le {n k : Nat} (hnk : n ≤ k) (p : Phrase) :
    (Phrase.match_ n p).Refines (Phrase.match_ k p) := by
  induction n generalizing k p with
  | zero => exact fun _ _ _ h => absurd rfl h
  | succ n ih =>
    obtain ⟨k, rfl⟩ : ∃ j, k = j + 1 := ⟨k - 1, by omega⟩
    intro wanted furthest c hdecided
    have hpattern := Pattern.refines_match (fun q => ih (Nat.le_of_succ_le_succ hnk) q) p.pattern
    simp only [Phrase.match_]
    rw [hpattern]
    intro hex
    apply hdecided
    simp only [Phrase.match_, Attempt.outcome_record, hex]
    rfl

/-! ### Calls -/

/-- A pattern matches from one place to another. -/
def Pattern.Takes (p : Pattern) (c next : Cursor) : Prop :=
  ∃ fuel wanted furthest trees furthest',
    p.match_ (Phrase.match_ fuel) wanted furthest c = ⟨.matched trees next, furthest'⟩

/-- A pattern takes no characters back, and some if it must. -/
theorem Pattern.Takes.length {p : Pattern} {c next : Cursor} (h : p.Takes c next) :
    next.rest.length ≤ c.rest.length ∧ (p.nullable = false → next.rest.length < c.rest.length) := by
  obtain ⟨fuel, wanted, furthest, trees, furthest', h⟩ := h
  exact p.advances_match (Phrase.advances_match fuel) h

/-- A pattern to match at a place. -/
structure Goal where
  pattern : Pattern
  place : Cursor

namespace Goal

/-- What is tried at which place to match a pattern.  The second part of a sequence is tried after
the first one and the blanks behind it, and so is the rest of a repetition after a round.  A second
alternative counts as tried also where the first one matches. -/
inductive Calls : Goal → Goal → Prop
  | phrase (p : Phrase) (c : Cursor) : Calls ⟨.phrase p, c⟩ ⟨p.pattern, c⟩
  | first (a b : Pattern) (c : Cursor) : Calls ⟨.seq a b, c⟩ ⟨a, c⟩
  | second {a : Pattern} (b : Pattern) {c next : Cursor} (h : a.Takes c next) :
      Calls ⟨.seq a b, c⟩ ⟨b, next.skip⟩
  | left (a b : Pattern) (c : Cursor) : Calls ⟨.alt a b, c⟩ ⟨a, c⟩
  | right (a b : Pattern) (c : Cursor) : Calls ⟨.alt a b, c⟩ ⟨b, c⟩
  | round (a : Pattern) (c : Cursor) : Calls ⟨.many a, c⟩ ⟨a, c⟩
  | rounds {a : Pattern} {c next : Cursor} (h : a.Takes c next) :
      Calls ⟨.many a, c⟩ ⟨.many a, next.skip⟩
  | optional (a : Pattern) (c : Cursor) : Calls ⟨.optional a, c⟩ ⟨a, c⟩
  | ahead (a : Pattern) (c : Cursor) : Calls ⟨.ahead a, c⟩ ⟨a, c⟩
  | without (a : Pattern) (c : Cursor) : Calls ⟨.without a, c⟩ ⟨a, c⟩

/-- What is called directly or through other calls. -/
abbrev Reaches : Goal → Goal → Prop :=
  Relation.ReflTransGen Calls

end Goal

/-- Rounds of a repetition look at phrases only where the repetition calls them. -/
theorem repeatFrom_congr {n : Nat} {m : Phrase → Matcher} {a : Pattern}
    (ha : ∀ c, (∀ q d, Goal.Reaches ⟨a, c⟩ ⟨.phrase q, d⟩ → ∀ wanted furthest,
        m q wanted furthest d = Phrase.match_ n q wanted furthest d) →
      ∀ wanted furthest, a.match_ m wanted furthest c = a.match_ (Phrase.match_ n)
        wanted furthest c)
    {c : Cursor} (h : ∀ q d, Goal.Reaches ⟨.many a, c.skip⟩ ⟨.phrase q, d⟩ → ∀ wanted furthest,
      m q wanted furthest d = Phrase.match_ n q wanted furthest d)
    (wanted : Bool) (fuel furthest : Nat) (trees : List Tree) :
    repeatFrom (a.match_ m) wanted fuel furthest trees c =
      repeatFrom (a.match_ (Phrase.match_ n)) wanted fuel furthest trees c := by
  induction fuel generalizing c furthest trees with
  | zero => rfl
  | succ fuel ih =>
    simp only [repeatFrom]
    rw [ha c.skip fun q d hq => h q d (.head (.round ..) hq)]
    rcases hround : a.match_ (Phrase.match_ n) wanted furthest c.skip with ⟨_ | _ | _, reached⟩
    · have htakes : a.Takes c.skip _ := ⟨n, wanted, furthest, _, reached, hround⟩
      exact ih (fun q d hq => h q d (.head (.rounds htakes) hq)) ..
    · rfl
    · rfl

/-- Matching looks at phrases only where it calls them. -/
theorem Pattern.match_congr {n : Nat} {m : Phrase → Matcher} :
    ∀ (p : Pattern) (c : Cursor), (∀ q d, Goal.Reaches ⟨p, c⟩ ⟨.phrase q, d⟩ → ∀ wanted furthest,
        m q wanted furthest d = Phrase.match_ n q wanted furthest d) →
      ∀ wanted furthest, p.match_ m wanted furthest c = p.match_ (Phrase.match_ n) wanted furthest c
  | .start, _ | .finish, _ | .chars _, _ | .token _, _ => fun _ _ _ => rfl
  | .phrase p, c => fun h => h p c .refl
  | .seq a b, c => fun h wanted furthest => by
    have ha := match_congr a c fun q d hq => h q d (.head (.first ..) hq)
    simp only [match_]
    rw [ha]
    rcases hmatch : a.match_ (Phrase.match_ n) wanted furthest c with ⟨_ | _ | _, reached⟩
    · have htakes : a.Takes c _ := ⟨n, wanted, furthest, _, reached, hmatch⟩
      dsimp only
      rw [match_congr b _ fun q d hq => h q d (.head (.second b htakes) hq)]
    · rfl
    · rfl
  | .alt a b, c => fun h wanted furthest => by
    have ha := match_congr a c fun q d hq => h q d (.head (.left ..) hq)
    have hb := match_congr b c fun q d hq => h q d (.head (.right ..) hq)
    simp only [match_]
    rw [ha]
    simp only [hb]
  | .many a, c => fun h wanted furthest => by
    have ha := match_congr a c fun q d hq => h q d (.head (.round ..) hq)
    simp only [match_]
    rw [ha]
    rcases hmatch : a.match_ (Phrase.match_ n) wanted furthest c with ⟨_ | _ | _, reached⟩
    · have htakes : a.Takes c _ := ⟨n, wanted, furthest, _, reached, hmatch⟩
      exact repeatFrom_congr (match_congr a) (fun q d hq => h q d (.head (.rounds htakes) hq)) ..
    · rfl
    · rfl
  | .optional a, c => fun h wanted furthest => by
    simp only [match_]
    rw [match_congr a c fun q d hq => h q d (.head (.optional ..) hq)]
  | .ahead a, c => fun h wanted furthest => by
    simp only [match_]
    rw [match_congr a c fun q d hq => h q d (.head (.ahead ..) hq)]
  | .without a, c => fun h wanted furthest => by
    simp only [match_]
    rw [match_congr a c fun q d hq => h q d (.head (.without ..) hq)]

/-! ### Calls go down -/

namespace Pattern

/-- The rank below which all phrases are that a pattern begins with. -/
def lead : Pattern → Nat
  | .phrase p => p.rank + 1
  | .seq a b => max a.lead (if a.nullable then b.lead else 0)
  | .alt a b => max a.lead b.lead
  | .many a | .optional a | .ahead a | .without a => a.lead
  | .start | .finish | .chars _ | .token _ => 0

theorem lead_le {p : Pattern} {n : Nat} (h : p.beginsBelow n = true) : p.lead ≤ n := by
  induction p with
  | phrase q =>
    have : q.rank < n := by simpa [beginsBelow] using h
    exact this
  | seq a b iha ihb =>
    simp only [beginsBelow, Bool.and_eq_true, Bool.or_eq_true, Bool.not_eq_true'] at h
    refine Nat.max_le.mpr ⟨iha h.1, ?_⟩
    rcases h.2 with hnull | hb
    · simp [hnull]
    · split
      · exact ihb hb
      · exact Nat.zero_le _
  | alt a b iha ihb =>
    simp only [beginsBelow, Bool.and_eq_true] at h
    exact Nat.max_le.mpr ⟨iha h.1, ihb h.2⟩
  | many a ih | optional a ih | ahead a ih | without a ih => exact ih h
  | start | finish | chars | token => exact Nat.zero_le _

end Pattern

namespace Goal

/-- The order in which calls go down: less text is left, or phrases of lower rank stand at the
beginning, or the pattern is smaller. -/
def Below (h g : Goal) : Prop :=
  h.place.rest.length < g.place.rest.length ∨ h.place.rest.length ≤ g.place.rest.length ∧
    (h.pattern.lead < g.pattern.lead ∨
      h.pattern.lead ≤ g.pattern.lead ∧ sizeOf h.pattern < sizeOf g.pattern)

theorem Below.trans {f g h : Goal} (hfg : f.Below g) (hgh : g.Below h) : f.Below h := by
  unfold Below at *
  omega

/-- A call at the same place goes down to a part of the pattern. -/
theorem below_part {a p : Pattern} {c : Cursor} (hlead : a.lead ≤ p.lead)
    (hsize : sizeOf a < sizeOf p) :
    Below ⟨a, c⟩ ⟨p, c⟩ :=
  .inr ⟨le_rfl, .inr ⟨hlead, hsize⟩⟩

/-- Calls go down, and what is called repeats only what takes a character. -/
theorem Calls.below {g h : Goal} (hcall : g.Calls h) (hg : g.pattern.repeatsProgress = true) :
    h.Below g ∧ h.pattern.repeatsProgress = true := by
  cases hcall with
  | phrase p c =>
    have : p.pattern.lead ≤ p.rank := Pattern.lead_le p.beginsBelow_pattern
    exact ⟨.inr ⟨le_rfl, .inl (Nat.lt_succ_of_le this)⟩, p.repeatsProgress_pattern⟩
  | first a b c =>
    simp only [Pattern.repeatsProgress, Bool.and_eq_true] at hg
    exact ⟨below_part (Nat.le_max_left ..) (by rw [Pattern.seq.sizeOf_spec]; omega), hg.1⟩
  | @second a b c next htakes =>
    simp only [Pattern.repeatsProgress, Bool.and_eq_true] at hg
    refine ⟨?_, hg.2⟩
    have hskip := next.length_skip
    have hlength := htakes.length
    cases hnull : a.nullable with
    | false => exact .inl (hskip.trans_lt (hlength.2 hnull))
    | true =>
      have hlead : b.lead ≤ (Pattern.seq a b).lead := by
        rw [Pattern.lead, if_pos hnull]
        exact Nat.le_max_right ..
      exact .inr ⟨hskip.trans hlength.1,
        .inr ⟨hlead, by change sizeOf b < _; rw [Pattern.seq.sizeOf_spec]; omega⟩⟩
  | left a b c =>
    simp only [Pattern.repeatsProgress, Bool.and_eq_true] at hg
    exact ⟨below_part (Nat.le_max_left ..) (by rw [Pattern.alt.sizeOf_spec]; omega), hg.1⟩
  | right a b c =>
    simp only [Pattern.repeatsProgress, Bool.and_eq_true] at hg
    exact ⟨below_part (Nat.le_max_right ..) (by rw [Pattern.alt.sizeOf_spec]; omega), hg.2⟩
  | round a c =>
    simp only [Pattern.repeatsProgress, Bool.and_eq_true] at hg
    exact ⟨below_part le_rfl (by simp), hg.2⟩
  | @rounds a c next htakes =>
    refine ⟨.inl ?_, hg⟩
    simp only [Pattern.repeatsProgress, Bool.and_eq_true, Bool.not_eq_true'] at hg
    exact next.length_skip.trans_lt (htakes.length.2 hg.1)
  | optional a c => exact ⟨below_part le_rfl (by simp), hg⟩
  | ahead a c => exact ⟨below_part le_rfl (by simp), hg⟩
  | without a c => exact ⟨below_part le_rfl (by simp), hg⟩

theorem wellFounded_below : WellFounded Below := by
  refine Subrelation.wf (fun {h g} hbelow => ?_)
    (InvImage.wf (fun g : Goal => (g.place.rest.length, g.pattern.lead, sizeOf g.pattern))
      (Prod.lex Nat.lt_wfRel (Prod.lex Nat.lt_wfRel Nat.lt_wfRel)).wf)
  rcases hbelow with hlength | ⟨hlength, hrest⟩
  · exact .left _ _ hlength
  rcases hlength.lt_or_eq with hlength | hlength
  · exact .left _ _ hlength
  refine Prod.lex_def.mpr (.inr ⟨hlength, Prod.lex_def.mpr ?_⟩)
  rcases hrest with hlead | ⟨hlead, hsize⟩
  · exact .inl hlead
  · exact hlead.lt_or_eq.imp_right fun hlead => ⟨hlead, hsize⟩

/-- Chains of calls end. -/
theorem exists_not_calls {g : Goal} (hg : g.pattern.repeatsProgress = true) (goals : Nat → Goal)
    (hstart : goals 0 = g) : ∃ n, ¬ (goals n).Calls (goals (n + 1)) := by
  induction g using wellFounded_below.induction generalizing goals with
  | _ g ih =>
    subst hstart
    by_cases hcall : (goals 0).Calls (goals 1)
    · obtain ⟨hbelow, hrepeats⟩ := hcall.below hg
      obtain ⟨n, hn⟩ := ih _ hbelow hrepeats (fun k => goals (k + 1)) rfl
      exact ⟨n + 1, hn⟩
    · exact ⟨0, hcall⟩

/-- The goal of a whole script. -/
def script (source : List Char) : Goal :=
  ⟨.phrase .script, ⟨0, source⟩⟩

theorem Reaches.repeatsProgress {g h : Goal} (hreach : g.Reaches h)
    (hg : g.pattern.repeatsProgress = true) : h.pattern.repeatsProgress = true := by
  induction hreach with
  | refl => exact hg
  | tail _ hcall ih => exact (hcall.below ih).2

/-- Calls through any number of others go down. -/
theorem below_of_transGen {g h : Goal} (hcalls : Relation.TransGen Calls g h)
    (hg : g.pattern.repeatsProgress = true) : h.Below g := by
  induction hcalls with
  | single hcall => exact (hcall.below hg).1
  | tail hcalls hcall ih =>
    exact (hcall.below (Reaches.repeatsProgress hcalls.to_reflTransGen hg)).1.trans ih

end Goal

namespace Parse

/-- Parsing a text as a script ends with a match or a failure, which no additional fuel changes.
What is called on the way, rules or parts of rules, calls itself again only after a character was
taken, chains of calls end, and a round of a repetition takes a character.  The same holds for the
rules of tokens and blanks, which call each other without recursion. -/
theorem terminates (source : List Char) :
    (((∃ trees next, (script source).outcome = .matched trees next) ∨
      (script source).outcome = .failed) ∧
      ∀ fuel ≥ Parse.fuel source, Phrase.match_ fuel .script true 0 ⟨0, source⟩ = script source) ∧
    (∀ p c d, (Goal.script source).Reaches ⟨p, c⟩ → Relation.TransGen Goal.Calls ⟨p, c⟩ ⟨p, d⟩ →
      d.rest.length < c.rest.length) ∧
    (∀ goals : Nat → Goal, goals 0 = Goal.script source → ∃ n, ¬ (goals n).Calls (goals (n + 1))) ∧
    (∀ a c next, (Goal.script source).Reaches ⟨.many a, c⟩ → a.Takes c next →
      next.rest.length < c.rest.length) ∧
    (∀ t : Token, t.lexeme.Scans t.scan? ∧ ∀ a ∈ t.lexeme.repeated, ∀ cs text rest,
      a.run cs = .matched text rest → rest.length < cs.length) ∧
    (∀ c : Cursor, ∃ text, Lexeme.blanks.run c.rest = .matched text c.skip.rest) ∧
    ∀ a ∈ Lexeme.blanks.repeated, ∀ cs text rest,
      a.run cs = .matched text rest → rest.length < cs.length := by
  have hscript {g : Goal} (h : (Goal.script source).Reaches g) : g.pattern.repeatsProgress = true :=
    h.repeatsProgress rfl
  refine ⟨⟨?_, fun fuel hfuel => ?_⟩, fun p c d hreach hcalls => ?_, fun goals hstart => ?_,
    fun a c next hreach htakes => ?_, fun t => ⟨t.scans_lexeme, fun a ha cs text rest hrun => ?_⟩,
    fun c => Lexeme.run_blanks c.offset c.rest, fun a ha cs text rest hrun => ?_⟩
  · have hdecided := script_ne_exhausted source
    revert hdecided
    cases (script source).outcome <;> simp
  · exact Phrase.match_of_le hfuel .script (script_ne_exhausted source)
  · have := Goal.below_of_transGen hcalls (hscript hreach)
    simpa [Goal.Below] using this
  · exact Goal.exists_not_calls rfl goals hstart
  · have hrepeats := hscript hreach
    simp only [Pattern.repeatsProgress, Bool.and_eq_true, Bool.not_eq_true'] at hrepeats
    exact htakes.length.2 hrepeats.1
  · exact Lexeme.length_of_run (t.progress_lexeme a ha) hrun
  · exact Lexeme.length_of_run (Lexeme.progress_blanks a ha) hrun

/-- Of a script that is one semicolon, the first round of statements takes it. -/
theorem terminates_semicolon :
    Phrase.match_ 1000 .script true 0 ⟨0, [';']⟩ = script [';'] ∧
      ∃ next, Pattern.sourceElement.Takes ⟨0, [';']⟩ next ∧ next.rest.length < 1 := by
  obtain ⟨⟨-, hfuel⟩, -, -, hrounds, -⟩ := terminates [';']
  have htakes : Pattern.sourceElement.Takes ⟨0, [';']⟩ ⟨1, []⟩ := ⟨2, true, 0, [_], 0, rfl⟩
  refine ⟨hfuel 1000 (by decide), ⟨1, []⟩, htakes,
    hrounds .sourceElement ⟨0, [';']⟩ ⟨1, []⟩ ?_ htakes⟩
  have hskip : (Cursor.mk 0 [';']).skip = ⟨0, [';']⟩ := by
    obtain ⟨text, hrest, hoffset⟩ := (Cursor.mk 0 [';']).leads_skip
    obtain ⟨_, hblanks⟩ := Lexeme.run_blanks 0 [';']
    have hnone : Lexeme.blanks.run [';'] = .matched [] [';'] := rfl
    rw [hnone] at hblanks
    obtain ⟨-, hblanks⟩ := Scanned.matched.inj hblanks
    have hskip : (Cursor.mk 0 [';']).skip.rest = [';'] := hblanks.symm
    rw [hskip] at hrest
    obtain rfl : text = [] := List.self_eq_append_left.mp hrest
    exact Cursor.mk.injEq .. ▸ ⟨hoffset, hskip⟩
  have hstart : Pattern.start.Takes ⟨0, [';']⟩ ⟨0, [';']⟩ := ⟨0, true, 0, _, _, rfl⟩
  have hsecond := Goal.Calls.second (.seq (.many .sourceElement) .finish) hstart
  rw [hskip] at hsecond
  exact ((Relation.ReflTransGen.single (.phrase .script _)).tail hsecond).tail (.first ..)

end Parse

end ScriptEngine
