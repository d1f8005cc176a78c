import ScriptEngine.Grammar.Match
import ScriptEngine.Proofs.Grammar.Scanning

/-!
# Parsed trees

What the parse tree of a source text looks like.  The children of a node are those that the pattern
of its phrase can leave behind, every leaf is spelled as its token asks, and every leaf and node
covers a range of the source that begins and ends between two characters.

## Main definitions

* `Pattern.Shape` : the lists of trees that a pattern can leave behind.
* `Source.Covers` : a range of bytes holds a text.
* `Tree.Parsed` : a tree comes from a source.

## Main statements

* `Phrase.reads_match` : what a phrase leaves behind is a parsed tree.
* `Parse.parsed_of_script` : the parse tree of a script is a parsed tree.
-/

namespace ScriptEngine

/-! ### Shapes -/

/-- The lists of trees that a pattern can leave behind. -/
def Pattern.Shape : Pattern → List Tree → Prop
  | .start, ts => ts = []
  | .finish, ts => ∃ offset, ts = [.finish offset]
  | .chars _, ts => ts = []
  | .token t, ts => ∃ span text, ts = [.leaf t span text]
  | .phrase p, ts => ∃ span children, ts = [.node p span children]
  | .seq a b, ts => ∃ l m, ts = l ++ m ∧ a.Shape l ∧ b.Shape m
  | .alt a b, ts => a.Shape ts ∨ b.Shape ts
  | .many a, ts => ∃ ls : List (List Tree), ts = ls.flatten ∧ ∀ l ∈ ls, a.Shape l
  | .optional a, ts => ts = [] ∨ a.Shape ts
  | .ahead _, ts => ts = []
  | .without _, ts => ts = []

/-- A text is one that a token is recognised as. -/
def Token.Spells (t : Token) (text : List Char) : Prop :=
  ∃ cs rest, t.scan? cs = some (text, rest)

/-- A range of bytes of a source holds a text; it begins and ends between two characters. -/
def Source.Covers (source : List Char) (span : Span) (text : List Char) : Prop :=
  ∃ before after, source = before ++ text ++ after ∧
    span = ⟨byteSize before, byteSize before + byteSize text⟩

/-- A tree comes from a source. -/
inductive Tree.Parsed (source : List Char) : Tree → Prop
  | leaf {t : Token} {span : Span} {text : List Char} (covers : Source.Covers source span text)
      (spells : t.Spells text) : Parsed source (.leaf t span text)
  | node {p : Phrase} {span : Span} {children : List Tree} {text : List Char}
      (covers : Source.Covers source span text) (shape : p.pattern.Shape children)
      (parsed : ∀ t ∈ children, Parsed source t) : Parsed source (.node p span children)
  | finish {offset : Nat} (covers : Source.Covers source ⟨offset, offset⟩ []) :
      Parsed source (.finish offset)

/-! ### Places -/

theorem byteSize_cons (c : Char) (cs : List Char) :
    byteSize (c :: cs) = c.utf8Size + byteSize cs := by
  have key (cs : List Char) (n : Nat) :
      cs.foldl (fun n c => n + c.utf8Size) n = n + byteSize cs := by
    induction cs generalizing n with
    | nil => rfl
    | cons c cs ih => rw [byteSize, List.foldl_cons, List.foldl_cons, ih, ih (0 + _)]; omega
  rw [byteSize, List.foldl_cons, key, Nat.zero_add]

@[simp] theorem byteSize_nil : byteSize [] = 0 := rfl

theorem byteSize_append (cs ds : List Char) : byteSize (cs ++ ds) = byteSize cs + byteSize ds := by
  induction cs with
  | nil => simp
  | cons c cs ih => rw [List.cons_append, byteSize_cons, byteSize_cons, ih, Nat.add_assoc]

namespace Cursor

/-- One place of a text comes after another, with some characters in between. -/
def Leads (c : Cursor) (text : List Char) (d : Cursor) : Prop :=
  c.rest = text ++ d.rest ∧ d.offset = c.offset + byteSize text

/-- A place of a source. -/
def On (source : List Char) (c : Cursor) : Prop :=
  ∃ before, source = before ++ c.rest ∧ c.offset = byteSize before

variable {c d e : Cursor} {text more source : List Char}

theorem Leads.refl (c : Cursor) : c.Leads [] c := ⟨rfl, rfl⟩

theorem Leads.trans (h : c.Leads text d) (h' : d.Leads more e) : c.Leads (text ++ more) e :=
  ⟨by rw [h.1, h'.1, List.append_assoc], by rw [h'.2, h.2, byteSize_append, Nat.add_assoc]⟩

theorem Leads.on (h : c.Leads text d) (hc : c.On source) : d.On source := by
  obtain ⟨before, rfl, hoffset⟩ := hc
  exact ⟨before ++ text, by rw [h.1, List.append_assoc], by rw [h.2, hoffset, byteSize_append]⟩

/-- What stands between two places is a range of the source. -/
theorem Leads.covers (h : c.Leads text d) (hc : c.On source) :
    Source.Covers source ⟨c.offset, d.offset⟩ text := by
  obtain ⟨before, rfl, hoffset⟩ := hc
  exact ⟨before, d.rest, by rw [h.1, List.append_assoc], by rw [h.2, hoffset]⟩

theorem leads_advance {rest : List Char} (h : c.rest = text ++ rest) :
    c.Leads text (c.advance text rest) :=
  ⟨h, rfl⟩

theorem leads_closeComment {offset : Nat} {cs : List Char} {d : Cursor}
    (h : closeComment offset cs = some d) : ∃ text, Leads ⟨offset, cs⟩ text d := by
  fun_induction closeComment offset cs with
  | case1 => cases h
  | case2 offset rest => cases h; exact ⟨['*', '/'], rfl, rfl⟩
  | case3 offset c rest _ ih =>
    obtain ⟨text, hrest, hoffset⟩ := ih h
    exact ⟨c :: text, by simpa using hrest, by rw [hoffset, byteSize_cons]; exact Nat.add_assoc ..⟩

theorem leads_lineEnd (offset : Nat) (cs : List Char) :
    ∃ text, Leads ⟨offset, cs⟩ text (lineEnd offset cs) := by
  fun_induction lineEnd offset cs with
  | case1 => exact ⟨[], .refl _⟩
  | case2 => exact ⟨[], .refl _⟩
  | case3 offset c rest _ ih =>
    obtain ⟨text, hrest, hoffset⟩ := ih
    exact ⟨c :: text, by simpa using hrest, by rw [hoffset, byteSize_cons]; exact Nat.add_assoc ..⟩

theorem leads_skipBlanks (offset : Nat) (cs : List Char) :
    ∃ text, Leads ⟨offset, cs⟩ text (skipBlanks offset cs) := by
  fun_induction skipBlanks offset cs with
  | case1 => exact ⟨[], .refl _⟩
  | case2 offset rest c hclose ih =>
    obtain ⟨text, hcomment⟩ := leads_closeComment hclose
    obtain ⟨more, hmore⟩ := ih
    have hopen : Leads ⟨offset, '/' :: '*' :: rest⟩ ['/', '*'] ⟨offset + 2, rest⟩ := ⟨rfl, rfl⟩
    exact ⟨_, (hopen.trans hcomment).trans hmore⟩
  | case3 => exact ⟨[], .refl _⟩
  | case4 offset rest _ ih =>
    obtain ⟨text, hline⟩ := leads_lineEnd (offset + 2) rest
    obtain ⟨more, hmore⟩ := ih
    have hopen : Leads ⟨offset, '/' :: '/' :: rest⟩ ['/', '/'] ⟨offset + 2, rest⟩ := ⟨rfl, rfl⟩
    exact ⟨_, (hopen.trans hline).trans hmore⟩
  | case5 offset c rest _ _ _ ih =>
    obtain ⟨more, hmore⟩ := ih
    have hblank : Leads ⟨offset, c :: rest⟩ [c] ⟨offset + c.utf8Size, rest⟩ :=
      ⟨rfl, by rw [byteSize_cons]; rfl⟩
    exact ⟨_, hblank.trans hmore⟩
  | case6 => exact ⟨[], .refl _⟩

theorem leads_skip (c : Cursor) : ∃ text, c.Leads text c.skip :=
  leads_skipBlanks c.offset c.rest

end Cursor

/-! ### Matches -/

/-- What a match has left behind: trees of some shape, and the place after it. -/
structure Outcome.Reads (source : List Char) (shape : List Tree → Prop) (c : Cursor)
    (trees : List Tree) (next : Cursor) : Prop where
  shape : shape trees
  parsed : ∀ t ∈ trees, t.Parsed source
  leads : ∃ text, c.Leads text next

/-- Every match of a matcher leaves trees of some shape behind. -/
def Matcher.Reads (source : List Char) (m : Matcher) (shape : List Tree → Prop) : Prop :=
  ∀ ⦃wanted furthest c trees next furthest'⦄, c.On source →
    m wanted furthest c = ⟨.matched trees next, furthest'⟩ →
    Outcome.Reads source shape c trees next

section

variable {source : List Char} {c d next : Cursor} {l m trees : List Tree}
  {shape shape' : List Tree → Prop}

theorem Outcome.Reads.mono (h : Outcome.Reads source shape c trees next)
    (hshape : shape trees → shape' trees) : Outcome.Reads source shape' c trees next :=
  { h with shape := hshape h.shape }

theorem Outcome.Reads.on (h : Outcome.Reads source shape c trees next) (hc : c.On source) :
    next.On source := by
  obtain ⟨text, htext⟩ := h.leads
  exact htext.on hc

theorem Cursor.On.skip (hc : c.On source) : c.skip.On source := by
  obtain ⟨text, htext⟩ := c.leads_skip
  exact htext.on hc

/-- One match after another, with blanks in between. -/
theorem Outcome.Reads.append (h : Outcome.Reads source shape c l d)
    (h' : Outcome.Reads source shape' d.skip m next) :
    Outcome.Reads source (fun ts => ∃ l m, ts = l ++ m ∧ shape l ∧ shape' m) c (l ++ m) next := by
  obtain ⟨text, htext⟩ := h.leads
  obtain ⟨blanks, hblanks⟩ := d.leads_skip
  obtain ⟨more, hmore⟩ := h'.leads
  refine ⟨⟨l, m, rfl, h.shape, h'.shape⟩, ?_, _, (htext.trans hblanks).trans hmore⟩
  exact fun t ht => (List.mem_append.mp ht).elim (h.parsed t) (h'.parsed t)

theorem Outcome.Reads.nothing (hshape : shape []) : Outcome.Reads source shape c [] c :=
  ⟨hshape, nofun, [], .refl c⟩

theorem Attempt.outcome_record (wanted : Bool) (c : Cursor) (a : Attempt) :
    (a.record wanted c).outcome = a.outcome := by
  unfold record
  split
  · split <;> rfl
  · split <;> rfl
  · rfl

theorem matched_of_record {wanted : Bool} {a : Attempt} {furthest : Nat}
    (h : a.record wanted c = ⟨.matched trees next, furthest⟩) :
    a.outcome = .matched trees next := by
  rw [← Attempt.outcome_record wanted c a, h]

/-- Repetitions leave the trees of each repetition behind. -/
theorem reads_repeatFrom {m : Matcher} (hm : m.Reads source shape) {wanted : Bool} {fuel : Nat}
    {furthest furthest' : Nat} {start : Cursor} (hstart : start.On source)
    (h : Outcome.Reads source
      (fun ts => ∃ ls : List (List Tree), ts = ls.flatten ∧ ∀ l ∈ ls, shape l)
      start l c)
    (heq : repeatFrom m wanted fuel furthest l c = ⟨.matched trees next, furthest'⟩) :
    Outcome.Reads source (fun ts => ∃ ls : List (List Tree), ts = ls.flatten ∧ ∀ l ∈ ls, shape l)
      start trees next := by
  induction fuel generalizing furthest l c with
  | zero => cases heq
  | succ fuel ih =>
    rw [repeatFrom] at heq
    split at heq
    · next more d _ hmore =>
      refine ih ((h.append (hm (h.on hstart).skip hmore)).mono ?_) heq
      rintro ⟨_, last, hcat, ⟨ls, rfl, hls⟩, hlast⟩
      refine ⟨ls ++ [last], by simp [hcat], fun l hl => ?_⟩
      rcases List.mem_append.mp hl with hl | hl
      · exact hls l hl
      · exact List.mem_singleton.mp hl ▸ hlast
    · cases heq
      exact h
    · cases heq

end

/-- Every match of a pattern leaves trees of its shape behind, if every match of a phrase does. -/
theorem Pattern.reads_match {source : List Char} {phrase : Phrase → Matcher}
    (hphrase : ∀ p, (phrase p).Reads source (Pattern.phrase p).Shape) :
    ∀ p : Pattern, (p.match_ phrase).Reads source p.Shape
  | .start => by
    intro wanted furthest c trees next furthest' hc h
    simp only [match_] at h
    split at h
    · cases h
      exact .nothing rfl
    · cases h
  | .finish => by
    intro wanted furthest c trees next furthest' hc h
    simp only [match_] at h
    have h := matched_of_record h
    dsimp only at h
    split at h
    · cases h
      refine ⟨⟨_, rfl⟩, fun t ht => ?_, [], .refl _⟩
      obtain rfl := List.mem_singleton.mp ht
      exact .finish ((Cursor.Leads.refl _).covers hc)
    · cases h
  | .chars text => by
    intro wanted furthest c trees next furthest' hc h
    simp only [match_] at h
    split at h
    · next rest hrest =>
      cases h
      exact ⟨rfl, nofun, text, c.leads_advance (Token.after?_eq_some hrest)⟩
    · cases h
  | .token t => by
    intro wanted furthest c trees next furthest' hc h
    simp only [match_] at h
    have h := matched_of_record h
    simp only [scanAt] at h
    split at h
    · next text rest hscan =>
      cases h
      have hleads := c.leads_advance (Token.eq_append_of_scan? t hscan)
      refine ⟨⟨_, _, rfl⟩, fun u hu => ?_, text, hleads⟩
      obtain rfl := List.mem_singleton.mp hu
      exact .leaf (hleads.covers hc) ⟨c.rest, rest, hscan⟩
    · cases h
  | .phrase p => by
    intro wanted furthest c trees next furthest' hc h
    exact hphrase p hc h
  | .seq a b => by
    intro wanted furthest c trees next furthest' hc h
    simp only [match_] at h
    split at h
    · next ha =>
      have ha := reads_match hphrase a hc ha
      split at h
      · next hb =>
        cases h
        exact ha.append (reads_match hphrase b (ha.on hc).skip hb)
      · next hnot => exact absurd h (hnot _ _ _)
    · next hnot => exact absurd h (hnot _ _ _)
  | .alt a b => by
    intro wanted furthest c trees next furthest' hc h
    simp only [match_] at h
    split at h
    · exact (reads_match hphrase b hc h).mono .inr
    · exact (reads_match hphrase a hc h).mono .inl
  | .many a => by
    intro wanted furthest c trees next furthest' hc h
    simp only [match_] at h
    split at h
    · next first _ _ ha =>
      refine reads_repeatFrom (reads_match hphrase a) hc ((reads_match hphrase a hc ha).mono ?_) h
      exact fun hfirst => ⟨[first], by simp, fun l hl => List.mem_singleton.mp hl ▸ hfirst⟩
    · cases h
      exact .nothing ⟨[], rfl, nofun⟩
    · cases h
  | .optional a => by
    intro wanted furthest c trees next furthest' hc h
    simp only [match_] at h
    split at h
    · cases h
      exact .nothing (.inl rfl)
    · exact (reads_match hphrase a hc h).mono .inr
  | .ahead a => by
    intro wanted furthest c trees next furthest' hc h
    simp only [match_] at h
    split at h
    · cases h
      exact .nothing rfl
    · next hnot => exact absurd h (hnot _ _ _)
  | .without a => by
    intro wanted furthest c trees next furthest' hc h
    simp only [match_] at h
    split at h
    · cases h
    · cases h
      exact .nothing rfl
    · cases h

/-- What a phrase leaves behind is a parsed tree. -/
theorem Phrase.reads_match (source : List Char) (fuel : Nat) :
    ∀ p, (Phrase.match_ fuel p).Reads source (Pattern.phrase p).Shape := by
  induction fuel with
  | zero =>
    intro p wanted furthest c trees next furthest' hc h
    cases h
  | succ fuel ih =>
    intro p wanted furthest c trees next furthest' hc h
    rw [Phrase.match_] at h
    have h := matched_of_record h
    dsimp only at h
    cases hout : (p.pattern.match_ (Phrase.match_ fuel) wanted furthest c).outcome with
    | matched children d =>
      rw [hout] at h
      cases h
      have hmatch : p.pattern.match_ (Phrase.match_ fuel) wanted furthest c =
          ⟨.matched children next,
            (p.pattern.match_ (Phrase.match_ fuel) wanted furthest c).furthest⟩ := by
        rw [← hout]
      have hread := Pattern.reads_match ih p.pattern hc hmatch
      obtain ⟨text, htext⟩ := hread.leads
      refine ⟨⟨_, _, rfl⟩, fun t ht => ?_, text, htext⟩
      obtain rfl := List.mem_singleton.mp ht
      exact .node (htext.covers hc) hread.shape hread.parsed
    | failed => rw [hout] at h; cases h
    | exhausted => rw [hout] at h; cases h

/-- A script that matches leaves one tree behind, which is a parsed one. -/
theorem Parse.parsed_of_script {source : List Char} {trees : List Tree} {next : Cursor}
    {furthest : Nat} (h : Parse.script source = ⟨.matched trees next, furthest⟩) :
    ∃ span children, trees = [.node .script span children] ∧
      Tree.Parsed source (.node .script span children) := by
  have hread := Phrase.reads_match source (Parse.fuel source) .script
      (c := ⟨0, source⟩) ⟨[], rfl, rfl⟩ h
  obtain ⟨span, children, rfl⟩ := hread.shape
  exact ⟨span, children, rfl, hread.parsed _ List.mem_cons_self⟩

/-! ### Ranges of a source -/

namespace Source

theorem dropBytes_append (before after : List Char) :
    dropBytes (byteSize before) (before ++ after) = after := by
  induction before with
  | nil => cases after <;> simp [dropBytes]
  | cons c before ih =>
    have hpos := c.utf8Size_pos
    rw [byteSize_cons, List.cons_append, dropBytes, if_neg (by simp; omega),
      Nat.add_sub_cancel_left, ih]

theorem takeBytes_append (text after : List Char) :
    takeBytes (byteSize text) (text ++ after) = text := by
  induction text with
  | nil => cases after <;> simp [takeBytes]
  | cons c text ih =>
    have hpos := c.utf8Size_pos
    rw [byteSize_cons, List.cons_append, takeBytes, if_neg (by simp; omega),
      Nat.add_sub_cancel_left, ih]

/-- The slice of a range is the text that it holds. -/
theorem Covers.slice {source text : List Char} {span : Span} (h : Covers source span text) :
    slice source span = text := by
  obtain ⟨before, after, rfl, rfl⟩ := h
  rw [Source.slice, List.append_assoc, dropBytes_append, Nat.add_sub_cancel_left, takeBytes_append]

end Source

end ScriptEngine
