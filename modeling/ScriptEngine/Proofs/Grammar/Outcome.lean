import ScriptEngine.Proofs.Grammar.Termination
import ScriptEngine.Proofs.Grammar.Tracing

/-!
# What patterns come to

With enough fuel a pattern comes to the same outcome at a place, whatever has failed before and
whether its matches are wanted.  Each kind of pattern has its rules for the outcome, from those of
its parts.

## Main definitions

* `Pattern.Comes` : what a pattern comes to.
* `Pattern.Rounds` : what a repetition does from a place on.

## Main statements

* `Pattern.Comes.seq`, `Pattern.Comes.alt`, `Pattern.Comes.phrase`, `Pattern.Rounds.many` : the
  rules.
* `Pattern.fails_at_end` : what must take a character fails at the end of the text.
* `Parse.script_of_comes` : the outcome of a whole script.
-/

namespace ScriptEngine

theorem Attempt.eq_mk {a : Attempt} {o : Outcome} (h : a.outcome = o) : a = ⟨o, a.furthest⟩ := by
  rw [← h]

/-- The same outcome with more trees in front. -/
def Outcome.prepend (front : List Tree) : Outcome → Outcome
  | .matched trees next => .matched (front ++ trees) next
  | other => other

namespace Pattern

/-- With enough fuel, a pattern comes to an outcome at a place. -/
def Comes (p : Pattern) (c : Cursor) (o : Outcome) : Prop :=
  ∃ n, ∀ fuel, n ≤ fuel → ∀ wanted furthest,
    (p.match_ (Phrase.match_ fuel) wanted furthest c).outcome = o

/-- A pattern leaves trees behind and ends at a place. -/
abbrev Gives (p : Pattern) (c : Cursor) (trees : List Tree) (next : Cursor) : Prop :=
  p.Comes c (.matched trees next)

/-- A pattern does not match at a place. -/
abbrev Fails (p : Pattern) (c : Cursor) : Prop :=
  p.Comes c .failed

variable {a b p : Pattern} {c d next : Cursor} {o : Outcome} {trees more : List Tree}

/-! ### Marks and tokens -/

theorem gives_start (h : c.offset = 0) : Pattern.start.Gives c [] c :=
  ⟨0, fun _ _ _ _ => by simp [match_, h]⟩

theorem gives_finish (h : c.rest = []) : Pattern.finish.Gives c [.finish c.offset] c :=
  ⟨0, fun _ _ _ _ => by simp [match_, Attempt.outcome_record, h]⟩

theorem fails_chars {text : List Char} (h : Token.after? text c.rest = none) :
    (Pattern.chars text).Fails c :=
  ⟨0, fun _ _ _ _ => by simp [match_, h]⟩

theorem comes_token (t : Token) (c : Cursor) : (Pattern.token t).Comes c (scanAt t c) :=
  ⟨0, fun _ _ _ _ => by simp [match_, Attempt.outcome_record]⟩

theorem gives_token {t : Token} {text rest : List Char} (h : t.scan? c.rest = some (text, rest)) :
    (Pattern.token t).Gives c [.leaf t ⟨c.offset, c.offset + byteSize text⟩ text]
    (c.advance text rest) := by
  have := comes_token t c
  rwa [scanAt, h] at this

theorem fails_token {t : Token} (h : t.scan? c.rest = none) : (Pattern.token t).Fails c := by
  have := comes_token t c
  rwa [scanAt, h] at this

/-! ### Parts of patterns -/

namespace Comes

theorem seq (ha : a.Gives c trees d) (hb : b.Comes d.skip o) :
    (Pattern.seq a b).Comes c (o.prepend trees) := by
  obtain ⟨n, ha⟩ := ha
  obtain ⟨m, hb⟩ := hb
  refine ⟨max n m, fun fuel hfuel wanted furthest => ?_⟩
  simp only [match_]
  rw [Attempt.eq_mk (ha fuel (by omega) wanted furthest)]
  dsimp only
  rw [Attempt.eq_mk (hb fuel (by omega) wanted _)]
  cases o <;> rfl

/-- A sequence without blanks between its parts. -/
theorem seq_settled (ha : a.Gives c trees d) (hd : d.Settled) (hb : b.Comes d o) :
    (Pattern.seq a b).Comes c (o.prepend trees) :=
  .seq ha (hd.symm ▸ hb)

theorem seq_fails (ha : a.Fails c) : (Pattern.seq a b).Fails c := by
  obtain ⟨n, ha⟩ := ha
  refine ⟨n, fun fuel hfuel wanted furthest => ?_⟩
  simp only [match_]
  rw [Attempt.eq_mk (ha fuel hfuel wanted furthest)]

theorem alt_first (ha : a.Gives c trees next) : (Pattern.alt a b).Gives c trees next := by
  obtain ⟨n, ha⟩ := ha
  refine ⟨n, fun fuel hfuel wanted furthest => ?_⟩
  simp only [match_]
  rw [Attempt.eq_mk (ha fuel hfuel wanted furthest)]

theorem alt (ha : a.Fails c) (hb : b.Comes c o) : (Pattern.alt a b).Comes c o := by
  obtain ⟨n, ha⟩ := ha
  obtain ⟨m, hb⟩ := hb
  refine ⟨max n m, fun fuel hfuel wanted furthest => ?_⟩
  simp only [match_]
  rw [Attempt.eq_mk (ha fuel (by omega) wanted furthest)]
  exact hb fuel (by omega) wanted _

theorem optional (ha : a.Fails c) : (Pattern.optional a).Gives c [] c := by
  obtain ⟨n, ha⟩ := ha
  refine ⟨n, fun fuel hfuel wanted furthest => ?_⟩
  simp only [match_]
  rw [Attempt.eq_mk (ha fuel hfuel wanted furthest)]

theorem ahead (ha : a.Gives c trees next) : (Pattern.ahead a).Gives c [] c := by
  obtain ⟨n, ha⟩ := ha
  refine ⟨n, fun fuel hfuel wanted furthest => ?_⟩
  simp only [match_]
  rw [Attempt.eq_mk (ha fuel hfuel wanted furthest)]

theorem ahead_fails (ha : a.Fails c) : (Pattern.ahead a).Fails c := by
  obtain ⟨n, ha⟩ := ha
  refine ⟨n, fun fuel hfuel wanted furthest => ?_⟩
  simp only [match_]
  rw [Attempt.eq_mk (ha fuel hfuel wanted furthest)]

theorem without (ha : a.Fails c) : (Pattern.without a).Gives c [] c := by
  obtain ⟨n, ha⟩ := ha
  refine ⟨n, fun fuel hfuel wanted furthest => ?_⟩
  simp only [match_]
  rw [Attempt.eq_mk (ha fuel hfuel (!wanted) furthest)]

/-- A phrase comes to what its pattern comes to, as one tree. -/
theorem phrase {q : Phrase} (h : q.pattern.Comes c o) :
    (Pattern.phrase q).Comes c (o.wrap q c.offset) := by
  obtain ⟨n, h⟩ := h
  refine ⟨n + 1, fun fuel hfuel wanted furthest => ?_⟩
  obtain ⟨fuel, rfl⟩ : ∃ k, fuel = k + 1 := ⟨fuel - 1, by omega⟩
  simp only [match_, Phrase.match_, Attempt.outcome_record]
  rw [h fuel (by omega)]

end Comes

/-- A choice fails if all its alternatives do. -/
theorem fails_choice {ps : List Pattern} (hp : p.Fails c) (hps : ∀ q ∈ ps, q.Fails c) :
    (choice p ps).Fails c := by
  induction ps generalizing p with
  | nil => exact hp
  | cons q ps ih =>
    rw [List.forall_mem_cons] at hps
    exact .alt hp (ih hps.1 hps.2)

/-- A choice comes to what its last alternative comes to if the others fail. -/
theorem comes_choice {q : Pattern} {ps : List Pattern} (hp : p.Fails c) (hps : ∀ q ∈ ps, q.Fails c)
    (h : q.Comes c o) : (choice p (ps ++ [q])).Comes c o := by
  induction ps generalizing p with
  | nil => exact .alt hp h
  | cons r ps ih =>
    rw [List.forall_mem_cons] at hps
    exact .alt hp (ih hps.1 hps.2)

/-! ### Repetitions -/

/-- What further rounds of a repetition leave behind, with blanks skipped before each of them. -/
inductive Rounds (a : Pattern) : Cursor → List Tree → Cursor → Prop
  | stop {c : Cursor} (h : a.Fails c.skip) : Rounds a c [] c
  | round {c d next : Cursor} {trees more : List Tree} (first : a.Gives c.skip trees d)
      (rest : Rounds a d more next) : Rounds a c (trees ++ more) next

namespace Rounds

theorem repeatFrom (hnull : a.nullable = false) (h : a.Rounds c trees next) :
    ∃ n, ∀ fuel, n ≤ fuel → ∀ rounds, c.rest.length < rounds → ∀ wanted furthest front,
      (repeatFrom (a.match_ (Phrase.match_ fuel)) wanted rounds furthest front c).outcome =
        .matched (front ++ trees) next := by
  induction h with
  | @stop c h =>
    obtain ⟨n, h⟩ := h
    refine ⟨n, fun fuel hfuel rounds hrounds wanted furthest front => ?_⟩
    obtain ⟨rounds, rfl⟩ : ∃ k, rounds = k + 1 := ⟨rounds - 1, by omega⟩
    simp only [ScriptEngine.repeatFrom]
    rw [Attempt.eq_mk (h fuel hfuel wanted furthest), List.append_nil]
  | @round c d next trees more first rest ih =>
    obtain ⟨n, first⟩ := first
    obtain ⟨m, ih⟩ := ih
    refine ⟨max n m, fun fuel hfuel rounds hrounds wanted furthest front => ?_⟩
    obtain ⟨rounds, rfl⟩ : ∃ k, rounds = k + 1 := ⟨rounds - 1, by omega⟩
    have hmatch := Attempt.eq_mk (first fuel (by omega) wanted furthest)
    have hshorter := (a.advances_match (Phrase.advances_match fuel) hmatch).2 hnull
    have hskip := c.length_skip
    simp only [ScriptEngine.repeatFrom]
    rw [hmatch]
    dsimp only
    rw [ih fuel (by omega) rounds (by omega), List.append_assoc]

/-- A repetition at a place without blanks. -/
theorem many (hc : c.Settled) (hnull : a.nullable = false) (h : a.Rounds c trees next) :
    (Pattern.many a).Gives c trees next := by
  cases h with
  | stop h =>
    rw [hc] at h
    obtain ⟨n, h⟩ := h
    refine ⟨n, fun fuel hfuel wanted furthest => ?_⟩
    simp only [match_]
    rw [Attempt.eq_mk (h fuel hfuel wanted furthest)]
  | round first rest =>
    rw [hc] at first
    obtain ⟨n, first⟩ := first
    obtain ⟨m, rest⟩ := rest.repeatFrom hnull
    refine ⟨max n m, fun fuel hfuel wanted furthest => ?_⟩
    have hmatch := Attempt.eq_mk (first fuel (by omega) wanted furthest)
    have hshorter := (a.advances_match (Phrase.advances_match fuel) hmatch).2 hnull
    simp only [match_]
    rw [hmatch]
    exact rest fuel (by omega) _ (by omega) wanted _ _

end Rounds

/-! ### The end of the text -/

theorem beginsBelow_max (p : Pattern) : p.beginsBelow 64 = true := by
  induction p with
  | phrase q => simpa [beginsBelow] using q.rank_lt
  | _ => simp_all [beginsBelow]

/-- What must take a character fails at the end of the text. -/
theorem fails_at_end (hnull : p.nullable = false) (hrepeats : p.repeatsProgress = true)
    (hc : c.rest = []) :
    p.Fails c := by
  refine ⟨64, fun fuel hfuel wanted furthest => ?_⟩
  have hhere (q : Phrase) (_ : q.rank < 64) (d : Cursor) (hd : d.rest.length ≤ 0) :
      (Phrase.match_ fuel q).Total d := by
    have := q.rank_lt
    exact Phrase.total_match q d (by omega)
  have htotal := total_match (Phrase.advances_match fuel) hhere
      (fun _ _ h => absurd h (Nat.not_lt_zero _)) p
    hrepeats c (.inr ⟨by simp [hc], p.beginsBelow_max⟩) wanted furthest
  rcases hmatch : p.match_ (Phrase.match_ fuel) wanted furthest c with ⟨trees, next⟩ | _ | _
  · have := (p.advances_match (Phrase.advances_match fuel) hmatch).2 hnull
    simp [hc] at this
  · rfl
  · rw [hmatch] at htotal
    exact absurd rfl htotal

end Pattern

/-- The fuel for a script is enough. -/
theorem Parse.script_of_comes {source : List Char} {o : Outcome}
    (h : (Pattern.phrase .script).Comes ⟨0, source⟩ o) : (Parse.script source).outcome = o := by
  obtain ⟨n, h⟩ := h
  rw [← h (max n (Parse.fuel source)) (le_max_left _ _) true 0, Pattern.match_,
    Phrase.match_of_le (le_max_right _ _) .script (Parse.script_ne_exhausted source), Parse.script]

end ScriptEngine
