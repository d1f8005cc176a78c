import ScriptEngine.Proofs.Grammar.Opening

/-!
# Ranges of parse trees

The parts of a phrase stand one after the other in its range.

## Main definitions

* `Span.InOrder` : ranges stand one after the other between two offsets.
* `Tree.InOrder` : trees stand one after the other between two offsets.
* `Tree.Nested` : so do the parts of every phrase in a tree, within its range.

## Main statements

* `Phrase.places_match` : what a phrase leaves behind is nested, and stands between the places
  before and after it.
* `Parse.nested_of_script` : the parse tree of a script is nested.
-/

namespace ScriptEngine

/-! ### One after the other -/

/-- Ranges stand one after the other between two offsets. -/
def Span.InOrder (first last : Nat) : List Span → Prop
  | [] => first ≤ last
  | s :: rest => first ≤ s.start ∧ s.start ≤ s.stop ∧ InOrder s.stop last rest

namespace Span.InOrder

variable {a b c d : Nat} {ss ss' : List Span}

theorem le (h : InOrder a b ss) : a ≤ b := by
  induction ss generalizing a with
  | nil => exact h
  | cons s ss ih => exact h.1.trans (h.2.1.trans (ih h.2.2))

theorem mono (h : InOrder b c ss) (hab : a ≤ b) (hcd : c ≤ d) : InOrder a d ss := by
  induction ss generalizing a b with
  | nil => exact hab.trans (Nat.le_trans h hcd)
  | cons s ss ih => exact ⟨hab.trans h.1, h.2.1, ih h.2.2 le_rfl⟩

theorem append (h : InOrder a b ss) (h' : InOrder b c ss') : InOrder a c (ss ++ ss') := by
  induction ss generalizing a with
  | nil => exact h'.mono h le_rfl
  | cons s ss ih => exact ⟨h.1, h.2.1, ih h.2.2⟩

/-- Ranges that are left out leave the others in order. -/
theorem sublist (h : InOrder a b ss) (hsub : ss'.Sublist ss) : InOrder a b ss' := by
  induction hsub generalizing a with
  | slnil => exact h
  | cons s _ ih => exact ih (h.2.2.mono (h.1.trans h.2.1) le_rfl)
  | cons_cons s _ ih => exact ⟨h.1, h.2.1, ih h.2.2⟩

/-- Each of the ranges stands between the two offsets. -/
theorem of_mem (h : InOrder a b ss) {s : Span} (hs : s ∈ ss) :
    a ≤ s.start ∧ s.start ≤ s.stop ∧ s.stop ≤ b := by
  induction ss generalizing a with
  | nil => cases hs
  | cons t ss ih =>
    rcases List.mem_cons.mp hs with rfl | hs
    · exact ⟨h.1, h.2.1, h.2.2.le⟩
    · exact (ih h.2.2 hs).imp_left (h.1.trans h.2.1).trans

theorem pairwise (h : InOrder a b ss) : ss.Pairwise fun s t => s.stop ≤ t.start := by
  induction ss generalizing a with
  | nil => exact .nil
  | cons s ss ih => exact .cons (fun t ht => (h.2.2.of_mem ht).1) (ih h.2.2)

end Span.InOrder

namespace Tree

@[simp] theorem span_node (p : Phrase) (span : Span) (children : List Tree) :
    (node p span children).span = span :=
  rfl

/-- Trees stand one after the other between two offsets. -/
def InOrder (first last : Nat) : List Tree → Prop
  | [] => first ≤ last
  | t :: ts => first ≤ t.span.start ∧ t.span.start ≤ t.span.stop ∧ InOrder t.span.stop last ts

/-- The parts of every phrase in a tree stand one after the other in its range. -/
inductive Nested : Tree → Prop
  | leaf (token : Token) (span : Span) (text : List Char) : Nested (.leaf token span text)
  | finish (offset : Nat) : Nested (.finish offset)
  | node {p : Phrase} {span : Span} {children : List Tree}
    (order : InOrder span.start span.stop children)
      (parts : ∀ t ∈ children, Nested t) : Nested (.node p span children)

theorem Nested.order {p : Phrase} {span : Span} {children : List Tree}
    (h : Nested (.node p span children)) :
    InOrder span.start span.stop children := by
  cases h with
  | node order _ => exact order

theorem Nested.parts {p : Phrase} {span : Span} {children : List Tree}
    (h : Nested (.node p span children)) :
    ∀ t ∈ children, t.Nested := by
  cases h with
  | node _ parts => exact parts

namespace InOrder

variable {a b c d : Nat} {ts ts' : List Tree}

theorem iff_spans : InOrder a b ts ↔ Span.InOrder a b (ts.map span) := by
  induction ts generalizing a with
  | nil => rfl
  | cons t ts ih => exact and_congr_right fun _ => and_congr_right fun _ => ih

theorem le (h : InOrder a b ts) : a ≤ b :=
  (iff_spans.mp h).le

theorem of_le (h : InOrder b c ts) (hab : a ≤ b) : InOrder a c ts :=
  iff_spans.mpr ((iff_spans.mp h).mono hab le_rfl)

/-- Each of the trees stands between the two offsets. -/
theorem of_mem (h : InOrder a b ts) {t : Tree} (ht : t ∈ ts) : a ≤ t.span.start ∧ t.span.stop ≤ b :=
  ((iff_spans.mp h).of_mem (List.mem_map_of_mem ht)).imp_right And.right

theorem append (h : InOrder a b ts) (h' : InOrder b c ts') : InOrder a c (ts ++ ts') := by
  rw [iff_spans, List.map_append]
  exact (iff_spans.mp h).append (iff_spans.mp h')

/-- Trees that are left out leave the others in order. -/
theorem sublist (h : InOrder a b ts) (hsub : ts'.Sublist ts) : InOrder a b ts' :=
  iff_spans.mpr ((iff_spans.mp h).sublist (hsub.map span))

end InOrder

end Tree

/-! ### Matches -/

/-- What a match leaves behind is nested, and stands between the places before and after it. -/
structure Outcome.Places (c : Cursor) (trees : List Tree) (next : Cursor) : Prop where
  order : Tree.InOrder c.offset next.offset trees
  nested : ∀ t ∈ trees, t.Nested

/-- Every match of a matcher leaves nested trees behind, between the places before and after it. -/
def Matcher.Places (m : Matcher) : Prop :=
  ∀ ⦃wanted furthest c trees next furthest'⦄,
    m wanted furthest c = ⟨.matched trees next, furthest'⟩ →
    Outcome.Places c trees next

theorem Cursor.offset_le_skip (c : Cursor) : c.offset ≤ c.skip.offset := by
  obtain ⟨text, -, hoffset⟩ := c.leads_skip
  exact hoffset ▸ Nat.le_add_right _ _

theorem Cursor.offset_le_advance (c : Cursor) (text rest : List Char) :
    c.offset ≤ (c.advance text rest).offset :=
  Nat.le_add_right _ _

namespace Outcome.Places

variable {c d next : Cursor} {l m : List Tree}

theorem nothing (h : c.offset ≤ next.offset) : Outcome.Places c [] next :=
  ⟨h, nofun⟩

theorem single {t : Tree} (h : t.Nested) (hstart : t.span.start = c.offset)
    (hstop : t.span.stop = next.offset) (hle : c.offset ≤ next.offset) :
    Outcome.Places c [t] next :=
  ⟨⟨hstart.ge, by rwa [hstart, hstop], hstop.le⟩, List.forall_mem_singleton.mpr h⟩

/-- One match after another, with blanks in between. -/
theorem append (h : Outcome.Places c l d) (h' : Outcome.Places d.skip m next) :
    Outcome.Places c (l ++ m) next :=
  ⟨h.order.append (h'.order.of_le d.offset_le_skip),
    List.forall_mem_append.mpr ⟨h.nested, h'.nested⟩⟩

end Outcome.Places

theorem places_repeatFrom {m : Matcher} (hm : m.Places) {wanted : Bool}
    {fuel furthest furthest' : Nat} {start c next : Cursor} {l trees : List Tree}
    (h : Outcome.Places start l c)
    (heq : repeatFrom m wanted fuel furthest l c = ⟨.matched trees next, furthest'⟩) :
    Outcome.Places start trees next := by
  induction fuel generalizing furthest l c with
  | zero => cases heq
  | succ fuel ih =>
    rw [repeatFrom] at heq
    split at heq
    · next hmore => exact ih (h.append (hm hmore)) heq
    · cases heq
      exact h
    · cases heq

/-- Every match of a pattern leaves nested trees behind, if every match of a phrase does. -/
theorem Pattern.places_match {phrase : Phrase → Matcher} (hphrase : ∀ p, (phrase p).Places) :
    ∀ p : Pattern, (p.match_ phrase).Places
  | .start => by
    intro wanted furthest c trees next furthest' h
    simp only [match_] at h
    split at h <;> cases h
    exact .nothing le_rfl
  | .finish => by
    intro wanted furthest c trees next furthest' h
    simp only [match_] at h
    have h := matched_of_record h
    dsimp only at h
    split at h <;> cases h
    exact .single (.finish _) rfl rfl le_rfl
  | .chars text => by
    intro wanted furthest c trees next furthest' h
    simp only [match_] at h
    split at h <;> cases h
    exact .nothing (c.offset_le_advance _ _)
  | .token t => by
    intro wanted furthest c trees next furthest' h
    simp only [match_] at h
    have h := matched_of_record h
    simp only [scanAt] at h
    split at h <;> cases h
    exact .single (.leaf ..) rfl rfl (c.offset_le_advance _ _)
  | .phrase p => hphrase p
  | .seq a b => by
    intro wanted furthest c trees next furthest' h
    simp only [match_] at h
    split at h
    · next ha =>
      split at h
      · next hb =>
        cases h
        exact (places_match hphrase a ha).append (places_match hphrase b hb)
      · next hnot => exact absurd h (hnot _ _ _)
    · next hnot => exact absurd h (hnot _ _ _)
  | .alt a b => by
    intro wanted furthest c trees next furthest' h
    simp only [match_] at h
    split at h
    · exact places_match hphrase b h
    · exact places_match hphrase a h
  | .many a => by
    intro wanted furthest c trees next furthest' h
    simp only [match_] at h
    split at h
    · next ha => exact places_repeatFrom (places_match hphrase a) (places_match hphrase a ha) h
    · cases h
      exact .nothing le_rfl
    · cases h
  | .optional a => by
    intro wanted furthest c trees next furthest' h
    simp only [match_] at h
    split at h
    · cases h
      exact .nothing le_rfl
    · exact places_match hphrase a h
  | .ahead a => by
    intro wanted furthest c trees next furthest' h
    simp only [match_] at h
    split at h
    · cases h
      exact .nothing le_rfl
    · next hnot => exact absurd h (hnot _ _ _)
  | .without a => by
    intro wanted furthest c trees next furthest' h
    simp only [match_] at h
    split at h
    · cases h
    · cases h
      exact .nothing le_rfl
    · cases h

/-- What a phrase leaves behind is nested, and stands between the places before and after it. -/
theorem Phrase.places_match (fuel : Nat) : ∀ p, (Phrase.match_ fuel p).Places := by
  induction fuel with
  | zero =>
    intro p wanted furthest c trees next furthest' h
    cases h
  | succ fuel ih =>
    intro p wanted furthest c trees next furthest' h
    obtain ⟨children, f, hmatch, rfl⟩ := Phrase.matched_children h
    have hplaces := Pattern.places_match ih p.pattern hmatch
    exact .single (.node hplaces.order hplaces.nested) rfl rfl hplaces.order.le

/-- The parse tree of a script is nested. -/
theorem Parse.nested_of_script {source : List Char} {tree : Tree} {next : Cursor} {furthest : Nat}
    (h : Parse.script source = ⟨.matched [tree] next, furthest⟩) : tree.Nested :=
  (Phrase.places_match _ .script h).nested tree List.mem_cons_self

end ScriptEngine
