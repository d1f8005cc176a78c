import ScriptEngine.Grammar.Match
import ScriptEngine.Proofs.Grammar.Scanning

/-!
# Expressions over characters

Parsing expressions over characters, in which the lexical rules are written.  A repetition goes on
as long as what it repeats matches, so it ends because each round takes a character.

## Main definitions

* `Lexeme` : parsing expressions over characters.
* `Lexeme.run` : their meaning, with an outcome of its own for repetitions that go on for too long.
* `Lexeme.repeated` : what an expression repeats.
* `Lexeme.Scans` : an expression that is always decided, as a recogniser says.

## Main statements

* `Lexeme.split_of_run` : a match is a beginning of the text, and it takes a character if it must.
* `Lexeme.Scans.many` : repetitions are decided if each round takes a character.
-/

namespace ScriptEngine

/-! ### Expressions -/

/-- Parsing expressions over characters.  Nothing is skipped between their parts. -/
inductive Lexeme where
  | chars (text : List Char)
  /-- One character of a class. -/
  | one (p : Char → Bool)
  | seq (a b : Lexeme)
  | alt (a b : Lexeme)
  | many (a : Lexeme)
  | optional (a : Lexeme)
  | without (a : Lexeme)

/-- What became of an expression: the characters that it matched and those after them, a failure, or
a repetition that went on for more rounds than there are characters. -/
inductive Scanned where
  | matched (text rest : List Char)
  | failed
  | exhausted

/-- The same after some characters that were matched before. -/
def Scanned.prepend (front : List Char) : Scanned → Scanned
  | .matched text rest => .matched (front ++ text) rest
  | other => other

@[simp] theorem Scanned.prepend_nil (o : Scanned) : o.prepend [] = o := by
  cases o <;> rfl

theorem Scanned.prepend_append (front more : List Char) (o : Scanned) :
    o.prepend (front ++ more) = (o.prepend more).prepend front := by
  cases o <;> simp [Scanned.prepend]

/-- The outcome of a recogniser. -/
def Scanned.ofOption : Option (List Char × List Char) → Scanned
  | some (text, rest) => .matched text rest
  | none => .failed

/-- Matches as often as possible, within a number of rounds. -/
def scanMany (m : List Char → Scanned) : Nat → List Char → Scanned
  | 0, _ => .exhausted
  | rounds + 1, cs =>
    match m cs with
    | .matched text rest => (scanMany m rounds rest).prepend text
    | .failed => .matched [] cs
    | .exhausted => .exhausted

namespace Lexeme

/-- The meaning of an expression. -/
def run : Lexeme → List Char → Scanned
  | .chars text, cs => .ofOption ((Token.after? text cs).map (text, ·))
  | .one _, [] => .failed
  | .one p, c :: cs => if p c then .matched [c] cs else .failed
  | .seq a b, cs =>
    match a.run cs with
    | .matched text rest => (b.run rest).prepend text
    | other => other
  | .alt a b, cs =>
    match a.run cs with
    | .failed => b.run cs
    | other => other
  | .many a, cs => scanMany a.run (cs.length + 1) cs
  | .optional a, cs =>
    match a.run cs with
    | .failed => .matched [] cs
    | other => other
  | .without a, cs =>
    match a.run cs with
    | .matched _ _ => .failed
    | .failed => .matched [] cs
    | .exhausted => .exhausted

attribute [grind =] run

/-- Whether an expression can match without taking a character. -/
def nullable : Lexeme → Bool
  | .chars text => text.isEmpty
  | .one _ => false
  | .seq a b => a.nullable && b.nullable
  | .alt a b => a.nullable || b.nullable
  | .many _ | .optional _ | .without _ => true

/-- The expressions that an expression repeats. -/
def repeated : Lexeme → List Lexeme
  | .chars _ | .one _ => []
  | .seq a b | .alt a b => a.repeated ++ b.repeated
  | .many a => a :: a.repeated
  | .optional a | .without a => a.repeated

/-- Repeated matches of beginnings of a text make up a beginning of it. -/
theorem split_of_scanMany {m : List Char → Scanned}
    (hm : ∀ {cs text rest}, m cs = .matched text rest → cs = text ++ rest) {rounds : Nat}
    {cs text rest : List Char} (h : scanMany m rounds cs = .matched text rest) :
    cs = text ++ rest := by
  induction rounds generalizing cs text with
  | zero => cases h
  | succ rounds ih =>
    simp only [scanMany] at h
    cases ha : m cs with
    | matched front middle =>
      rw [ha] at h
      cases hmore : scanMany m rounds middle with
      | matched more tail =>
        simp only [hmore] at h
        cases h
        rw [hm ha, ih hmore, List.append_assoc]
      | _ =>
        simp only [hmore] at h
        cases h
    | failed =>
      rw [ha] at h
      cases h
      rfl
    | exhausted =>
      rw [ha] at h
      cases h

/-- A match is a beginning of the text, and it is not empty if the expression must take a
character. -/
theorem split_of_run {l : Lexeme} {cs text rest : List Char} (h : l.run cs = .matched text rest) :
    cs = text ++ rest ∧ (l.nullable = false → text ≠ []) := by
  induction l generalizing cs text rest with
  | chars word =>
    simp only [run] at h
    cases hword : Token.after? word cs with
    | none =>
      rw [hword] at h
      cases h
    | some tail =>
      rw [hword] at h
      cases h
      exact ⟨Token.after?_eq_some hword, by simp [nullable]⟩
  | one p =>
    cases cs with
    | nil => cases h
    | cons c cs =>
      simp only [run] at h
      split at h
      · cases h
        exact ⟨rfl, fun _ => List.cons_ne_nil _ _⟩
      · cases h
  | seq a b iha ihb =>
    simp only [run] at h
    cases ha : a.run cs with
    | matched front middle =>
      rw [ha] at h
      cases hb : b.run middle with
      | matched more tail =>
        simp only [hb] at h
        cases h
        obtain ⟨rfl, hfront⟩ := iha ha
        obtain ⟨rfl, hmore⟩ := ihb hb
        refine ⟨(List.append_assoc ..).symm, fun hnull => ?_⟩
        rcases Bool.and_eq_false_iff.mp hnull with hnull | hnull
        · exact List.append_ne_nil_of_left_ne_nil (hfront hnull) _
        · exact List.append_ne_nil_of_right_ne_nil _ (hmore hnull)
      | _ =>
        simp only [hb] at h
        cases h
    | _ =>
      rw [ha] at h
      cases h
  | alt a b iha ihb =>
    simp only [run] at h
    cases ha : a.run cs with
    | matched front middle =>
      rw [ha] at h
      cases h
      exact (iha ha).imp_right fun hfront hnull => hfront (Bool.or_eq_false_iff.mp hnull).1
    | failed =>
      rw [ha] at h
      exact (ihb h).imp_right fun hfront hnull => hfront (Bool.or_eq_false_iff.mp hnull).2
    | exhausted =>
      rw [ha] at h
      cases h
  | many a iha =>
    simp only [run] at h
    exact ⟨split_of_scanMany (fun h => (iha h).1) h, nofun⟩
  | optional a iha =>
    refine ⟨?_, nofun⟩
    simp only [run] at h
    cases ha : a.run cs with
    | matched front middle =>
      rw [ha] at h
      cases h
      exact (iha ha).1
    | failed =>
      rw [ha] at h
      cases h
      rfl
    | exhausted =>
      rw [ha] at h
      cases h
  | without a iha =>
    refine ⟨?_, nofun⟩
    simp only [run] at h
    cases ha : a.run cs with
    | failed =>
      rw [ha] at h
      cases h
      rfl
    | _ =>
      rw [ha] at h
      cases h

/-- An expression that must take a character leaves fewer of them. -/
theorem length_of_run {l : Lexeme} (hl : l.nullable = false) {cs text rest : List Char}
    (h : l.run cs = .matched text rest) : rest.length < cs.length := by
  obtain ⟨rfl, hne⟩ := split_of_run h
  have := List.length_pos_iff.mpr (hne hl)
  simp
  omega

/-! ### Repetitions round by round -/

/-- Any number of rounds will do that is larger than the number of characters. -/
theorem scanMany_eq {a : Lexeme} (hnull : a.nullable = false) {m n : Nat} {cs : List Char}
    (hm : cs.length < m) (hn : cs.length < n) : scanMany a.run m cs = scanMany a.run n cs := by
  induction m generalizing n cs with
  | zero => omega
  | succ m ih =>
    obtain ⟨n, rfl⟩ : ∃ k, n = k + 1 := ⟨n - 1, by omega⟩
    simp only [scanMany]
    cases ha : a.run cs with
    | matched text rest =>
      have hrest := length_of_run hnull ha
      have hm : rest.length < m := by omega
      exact congrArg (Scanned.prepend text) (ih hm (by omega))
    | _ => rfl

theorem run_many {a : Lexeme} (hnull : a.nullable = false) (cs : List Char) :
    (many a).run cs = match a.run cs with
      | .matched text rest => ((many a).run rest).prepend text
      | .failed => .matched [] cs
      | .exhausted => .exhausted := by
  rw [run, scanMany]
  cases ha : a.run cs with
  | matched text rest =>
    exact congrArg (Scanned.prepend text)
      (scanMany_eq hnull (length_of_run hnull ha) (Nat.lt_succ_self _))
  | _ => rfl

theorem run_many_seq {a : Lexeme} (hnull : a.nullable = false) (b : Lexeme) (cs : List Char) :
    (seq (many a) b).run cs = match a.run cs with
      | .matched text rest => ((seq (many a) b).run rest).prepend text
      | .failed => b.run cs
      | .exhausted => .exhausted := by
  have hseq (cs : List Char) : (seq (many a) b).run cs = match (many a).run cs with
      | .matched text rest => (b.run rest).prepend text
      | other => other := by
    simp only [run]
  rw [hseq, run_many hnull]
  cases a.run cs with
  | matched text rest =>
    dsimp only
    rw [hseq]
    cases (many a).run rest with
    | matched more rest => exact Scanned.prepend_append ..
    | _ => rfl
  | failed => simp
  | exhausted => rfl

theorem run_seq_seq (a b c : Lexeme) (cs : List Char) :
    (seq (seq a b) c).run cs = (seq a (seq b c)).run cs := by
  simp only [run]
  cases a.run cs with
  | matched text rest =>
    dsimp only
    cases b.run rest with
    | matched more rest => exact Scanned.prepend_append ..
    | _ => rfl
  | _ => rfl

/-! ### Expressions with recognisers -/

/-- An expression is decided on every text, as a recogniser says. -/
def Scans (l : Lexeme) (f : Token.Scan) : Prop :=
  ∀ cs, l.run cs = .ofOption (f cs)

/-- Recognises one character of a class. -/
def scanOne (p : Char → Bool) : Token.Scan
  | c :: cs => if p c then some ([c], cs) else none
  | [] => none

/-- Puts characters in front of the recognised text. -/
def pushAll (front : List Char) (o : Option (List Char × List Char)) :
    Option (List Char × List Char) :=
  o.map fun (text, rest) => (front ++ text, rest)

@[simp] theorem pushAll_none (front : List Char) : pushAll front none = none :=
  rfl

@[simp] theorem pushAll_some (front text rest : List Char) :
    pushAll front (some (text, rest)) = some (front ++ text, rest) :=
  rfl

@[simp] theorem pushAll_pushAll (front more : List Char) (o : Option (List Char × List Char)) :
    pushAll front (pushAll more o) = pushAll (front ++ more) o := by
  cases o <;> simp [pushAll]

namespace Scans

variable {a b c : Lexeme} {f g h : Token.Scan}

theorem congr (ha : a.Scans f) (hfg : ∀ cs, f cs = g cs) : a.Scans g :=
  fun cs => (ha cs).trans (congrArg _ (hfg cs))

/-- A recogniser leaves fewer characters if its expression must take one. -/
theorem length_lt (ha : a.Scans f) (hnull : a.nullable = false) {cs text rest : List Char}
    (hf : f cs = some (text, rest)) : rest.length < cs.length :=
  length_of_run hnull ((ha cs).trans (congrArg _ hf))

theorem chars (text : List Char) :
    (Lexeme.chars text).Scans fun cs => (Token.after? text cs).map (text, ·) :=
  fun _ => rfl

theorem one (p : Char → Bool) : (Lexeme.one p).Scans (scanOne p) := by
  intro cs
  cases cs with
  | nil => rfl
  | cons c cs =>
    simp only [run, scanOne]
    split <;> rfl

theorem seq (ha : a.Scans f) (hb : b.Scans g) :
    (Lexeme.seq a b).Scans fun cs => (f cs).bind fun (text, rest) => pushAll text (g rest) := by
  intro cs
  simp only [run, ha cs]
  cases f cs with
  | none => rfl
  | some p =>
    simp only [Scanned.ofOption, hb p.2, Option.bind_some]
    cases g p.2 <;> rfl

theorem alt (ha : a.Scans f) (hb : b.Scans g) : (Lexeme.alt a b).Scans fun cs =>
    (f cs).or (g cs) := by
  intro cs
  simp only [run, ha cs]
  cases f cs with
  | none => exact hb cs
  | some p => rfl

theorem optional (ha : a.Scans f) : (Lexeme.optional a).Scans fun cs =>
    some ((f cs).getD ([], cs)) := by
  intro cs
  simp only [run, ha cs]
  cases f cs <;> rfl

theorem without (ha : a.Scans f) :
    (Lexeme.without a).Scans fun cs => if (f cs).isSome then none else some ([], cs) := by
  intro cs
  simp only [run, ha cs]
  cases f cs <;> rfl

/-- A repetition is decided as a recogniser that takes one round after the other. -/
theorem many (ha : a.Scans f) (hnull : a.nullable = false)
    (hg : ∀ cs, g cs = match f cs with
      | some (text, rest) => pushAll text (g rest)
      | none => some ([], cs)) : (Lexeme.many a).Scans g := by
  intro cs
  induction hn : cs.length using Nat.strong_induction_on generalizing cs with
  | _ n ih =>
    rw [run_many hnull, hg cs, ha cs]
    cases hf : f cs with
    | none => rfl
    | some p =>
      obtain ⟨text, rest⟩ := p
      simp only [Scanned.ofOption, ih _ (hn ▸ ha.length_lt hnull hf) rest rfl]
      cases g rest <;> rfl

/-- A repetition and what follows it are decided as a recogniser that takes one round after the
other. -/
theorem many_seq (ha : a.Scans f) (hnull : a.nullable = false) (hb : b.Scans h)
    (hg : ∀ cs, g cs = match f cs with
      | some (text, rest) => pushAll text (g rest)
      | none => h cs) : (Lexeme.seq (.many a) b).Scans g := by
  intro cs
  induction hn : cs.length using Nat.strong_induction_on generalizing cs with
  | _ n ih =>
    rw [run_many_seq hnull, hg cs, ha cs]
    cases hf : f cs with
    | none => exact hb cs
    | some p =>
      obtain ⟨text, rest⟩ := p
      simp only [Scanned.ofOption, ih _ (hn ▸ ha.length_lt hnull hf) rest rfl]
      cases g rest <;> rfl

end Scans

end Lexeme

end ScriptEngine
