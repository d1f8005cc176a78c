import ScriptEngine.Proofs.Grammar.Opening

/-!
# Where phrases were found

Every phrase in the parse tree of a script was found by its pattern, at a place where no blanks and
no comments stand.

## Main definitions

* `Cursor.Settled` : no blanks and no comments stand at a place.
* `Tree.Traced` : all phrases in a tree were found by their patterns.

## Main statements

* `Phrase.traces_match` : what a phrase leaves behind was found by patterns.
* `Parse.traced_of_script` : so were the parts of a script.
-/

namespace ScriptEngine

/-! ### Settled places -/

theorem skipBlanks_skipBlanks (offset : Nat) (cs : List Char) :
    skipBlanks (skipBlanks offset cs).offset (skipBlanks offset cs).rest =
      skipBlanks offset cs := by
  fun_induction skipBlanks offset cs with
  | case1 => rw [skipBlanks.eq_def]
  | case2 offset rest d hclose ih => exact ih
  | case3 offset rest hclose =>
    rw [skipBlanks.eq_def]
    split
    · next heq => cases heq
    · next heq =>
      cases heq
      split
      · next hsome => cases hclose.symm.trans hsome
      · rfl
    · next heq => cases heq
    · next hstars _ heq =>
      cases heq
      exact (hstars _ rfl rfl).elim
  | case4 offset rest d ih => exact ih
  | case5 offset x rest _ _ hblank ih => exact ih
  | case6 offset x rest hstars hline hblank =>
    rw [skipBlanks.eq_def]
    split
    · next heq => cases heq
    · next heq =>
      cases heq
      exact (hstars _ rfl rfl).elim
    · next heq =>
      cases heq
      exact (hline _ rfl rfl).elim
    · next heq =>
      cases heq
      rw [if_neg hblank]

/-- No blanks and no comments stand at a place. -/
def Cursor.Settled (c : Cursor) : Prop :=
  c.skip = c

theorem Cursor.settled_skip (c : Cursor) : c.skip.Settled :=
  skipBlanks_skipBlanks c.offset c.rest

/-! ### Traces -/

/-- All phrases in a tree were found by their patterns, at settled places of a source. -/
inductive Tree.Traced (source : List Char) : Tree → Prop
  | leaf (token : Token) (span : Span) (text : List Char) : Traced source (.leaf token span text)
  | finish (offset : Nat) : Traced source (.finish offset)
  | node {p : Phrase} {fuel : Nat} {wanted : Bool} {furthest furthest' : Nat} {c next : Cursor}
      {children : List Tree} (on : c.On source) (settled : c.Settled)
      (run : p.pattern.match_ (Phrase.match_ fuel) wanted furthest c =
        ⟨.matched children next, furthest'⟩)
      (parts : ∀ t ∈ children, Traced source t) :
      Traced source (.node p ⟨c.offset, next.offset⟩ children)

theorem Tree.Traced.parts {source : List Char} {p : Phrase} {span : Span} {children : List Tree}
    (h : Traced source (.node p span children)) : ∀ t ∈ children, t.Traced source := by
  cases h with
  | node _ _ _ parts => exact parts

/-- What a matcher leaves behind at a settled place was found by patterns. -/
def Matcher.Traces (source : List Char) (m : Matcher) : Prop :=
  ∀ ⦃wanted furthest c trees next furthest'⦄, c.On source → c.Settled →
    m wanted furthest c = ⟨.matched trees next, furthest'⟩ → ∀ t ∈ trees, t.Traced source

section

variable {source : List Char} {c next : Cursor} {l trees : List Tree} {shape : List Tree → Prop}

theorem traces_repeatFrom {m : Matcher} (hreads : m.Reads source shape) (hm : m.Traces source)
    {wanted : Bool} {fuel : Nat} {furthest furthest' : Nat} (hc : c.On source)
    (hl : ∀ t ∈ l, t.Traced source)
    (heq : repeatFrom m wanted fuel furthest l c = ⟨.matched trees next, furthest'⟩) :
    ∀ t ∈ trees, t.Traced source := by
  induction fuel generalizing furthest l c with
  | zero => cases heq
  | succ fuel ih =>
    rw [repeatFrom] at heq
    split at heq
    · next hmore =>
      refine ih ((hreads hc.skip hmore).on hc.skip) ?_ heq
      exact List.forall_mem_append.mpr ⟨hl, hm hc.skip c.settled_skip hmore⟩
    · cases heq
      exact hl
    · cases heq

variable {phrase : Phrase → Matcher}

theorem Pattern.traces_match (hreads : ∀ p, (phrase p).Reads source (Pattern.phrase p).Shape)
    (hphrase : ∀ p, (phrase p).Traces source) : ∀ p : Pattern, (p.match_ phrase).Traces source
  | .start => by
    intro wanted furthest c trees next furthest' hc hs h
    simp only [match_] at h
    split at h <;> cases h
    exact List.forall_mem_nil _
  | .finish => by
    intro wanted furthest c trees next furthest' hc hs h
    simp only [match_] at h
    have h := matched_of_record h
    dsimp only at h
    split at h
    · cases h
      exact List.forall_mem_singleton.mpr (.finish _)
    · cases h
  | .chars text => by
    intro wanted furthest c trees next furthest' hc hs h
    simp only [match_] at h
    split at h <;> cases h
    exact List.forall_mem_nil _
  | .token t => by
    intro wanted furthest c trees next furthest' hc hs h
    simp only [match_] at h
    have h := matched_of_record h
    simp only [scanAt] at h
    split at h
    · cases h
      exact List.forall_mem_singleton.mpr (.leaf ..)
    · cases h
  | .phrase p => hphrase p
  | .seq a b => by
    intro wanted furthest c trees next furthest' hc hs h
    simp only [match_] at h
    split at h
    · next d _ ha =>
      split at h
      · next hb =>
        cases h
        have hd := (reads_match hreads a hc ha).on hc
        exact List.forall_mem_append.mpr ⟨traces_match hreads hphrase a hc hs ha,
          traces_match hreads hphrase b hd.skip d.settled_skip hb⟩
      · next hnot => exact absurd h (hnot _ _ _)
    · next hnot => exact absurd h (hnot _ _ _)
  | .alt a b => by
    intro wanted furthest c trees next furthest' hc hs h
    simp only [match_] at h
    split at h
    · exact traces_match hreads hphrase b hc hs h
    · exact traces_match hreads hphrase a hc hs h
  | .many a => by
    intro wanted furthest c trees next furthest' hc hs h
    simp only [match_] at h
    split at h
    · next ha =>
      exact traces_repeatFrom (reads_match hreads a) (traces_match hreads hphrase a)
        ((reads_match hreads a hc ha).on hc) (traces_match hreads hphrase a hc hs ha) h
    · cases h
      exact List.forall_mem_nil _
    · cases h
  | .optional a => by
    intro wanted furthest c trees next furthest' hc hs h
    simp only [match_] at h
    split at h
    · cases h
      exact List.forall_mem_nil _
    · exact traces_match hreads hphrase a hc hs h
  | .ahead a => by
    intro wanted furthest c trees next furthest' hc hs h
    simp only [match_] at h
    split at h
    · cases h
      exact List.forall_mem_nil _
    · next hnot => exact absurd h (hnot _ _ _)
  | .without a => by
    intro wanted furthest c trees next furthest' hc hs h
    simp only [match_] at h
    split at h
    · cases h
    · cases h
      exact List.forall_mem_nil _
    · cases h

end

/-- The matches of a sequence. -/
theorem Pattern.matched_seq {phrase : Phrase → Matcher} {a b : Pattern} {wanted : Bool}
    {furthest furthest' : Nat} {c next : Cursor} {trees : List Tree}
    (h : (Pattern.seq a b).match_ phrase wanted furthest c = ⟨.matched trees next, furthest'⟩) :
    ∃ l m d f, a.match_ phrase wanted furthest c = ⟨.matched l d, f⟩ ∧
      b.match_ phrase wanted f d.skip = ⟨.matched m next, furthest'⟩ ∧ trees = l ++ m := by
  simp only [match_] at h
  split at h
  · next l d f ha =>
    split at h
    · next m last f' hb =>
      cases h
      exact ⟨l, m, d, f, ha, hb, rfl⟩
    · next hnot => exact absurd h (hnot _ _ _)
  · next hnot => exact absurd h (hnot _ _ _)

/-- What a phrase leaves behind was found by patterns. -/
theorem Phrase.traces_match (source : List Char) (fuel : Nat) :
    ∀ p, (Phrase.match_ fuel p).Traces source := by
  induction fuel with
  | zero =>
    intro p wanted furthest c trees next furthest' _ _ h
    cases h
  | succ fuel ih =>
    intro p wanted furthest c trees next furthest' hc hs h
    obtain ⟨children, f, hmatch, rfl⟩ := Phrase.matched_children h
    exact List.forall_mem_singleton.mpr (.node hc hs hmatch
      (Pattern.traces_match (Phrase.reads_match source fuel) ih p.pattern hc hs hmatch))

/-- The script itself begins where its source does; its parts come after the first blanks. -/
theorem Phrase.traces_script {source : List Char} {fuel : Nat} {wanted : Bool}
    {furthest furthest' : Nat} {span : Span} {children : List Tree} {next : Cursor}
    (h : Phrase.match_ fuel .script wanted furthest ⟨0, source⟩ =
      ⟨.matched [.node .script span children] next, furthest'⟩) :
    ∀ t ∈ children, t.Traced source := by
  cases fuel with
  | zero => cases h
  | succ fuel =>
    obtain ⟨_, f, hmatch, heq⟩ := Phrase.matched_children h
    cases heq
    have hreads := Phrase.reads_match source fuel
    obtain ⟨_, parts, d, _, hstart, hparts, rfl⟩ := Pattern.matched_seq hmatch
    have hd := (Pattern.reads_match hreads .start ⟨[], rfl, rfl⟩ hstart).on ⟨[], rfl, rfl⟩
    rw [Pattern.match_] at hstart
    split at hstart <;> cases hstart
    exact Pattern.traces_match hreads (Phrase.traces_match source fuel) _ hd.skip
      (Cursor.settled_skip _) hparts

/-- The parts of a script were found by patterns. -/
theorem Parse.traced_of_script {source : List Char} {span : Span} {children : List Tree}
    {next : Cursor} {furthest : Nat}
    (h : Parse.script source = ⟨.matched [.node .script span children] next, furthest⟩) :
    ∀ t ∈ children, t.Traced source :=
  Phrase.traces_script h

end ScriptEngine
