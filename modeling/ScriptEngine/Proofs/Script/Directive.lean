import Mathlib.Data.List.DropRight
import ScriptEngine.Proofs.Grammar.Tracing
import ScriptEngine.Proofs.Script.Parsing
import ScriptEngine.Proofs.Script.Collecting

/-!
# Directives

A body asks for strict mode by the directives at its head: statements that are a string literal
without parentheses and nothing else.  Whether a statement is one is decided by its text, white
space at both ends and semicolons at the end aside, so only *plain* directives are seen: the literal
has no quote of its own kind inside, and nothing but white space stands between it and the end of
the statement.

## Main definitions

* `Stmt.directive?`, `Stmt.IsPlainDirective` : the directives, and those that are plain.
* `AsksStrict` : one of the directives at the head of a body asks for strict mode.
* `Directed`, `Func.Directed` : a body, and the functions in it, are strict as the directives say.

## Main statements

* `quotedText?_directiveText` : which directives are seen in the text of a statement.
* `Program.directed_of_parse` : strictness in a script is decided by the plain directives.
* `Program.overlooks_directive` : a directive that is not plain is no directive.
-/

namespace ScriptEngine

/-! ### Directives -/

/-- The token of a statement that is a string literal without parentheses and nothing else. -/
def Stmt.directive? (source : List Char) : Stmt → Option (List Char)
  | .expression span (.literal inner (.string _)) =>
    if inner.start = span.start then some (Source.slice source inner) else none
  | _ => none

/-- A directive without its quote inside, and with nothing but white space after it. -/
structure Stmt.IsPlainDirective (source : List Char) (s : Stmt) (token : List Char) : Prop where
  directive : s.directive? source = some token
  quoted : ∃ q body, (q = '"' ∨ q = '\'') ∧ q ∉ body ∧ token = q :: (body ++ [q])
  ends : ∃ span e gap, s = .expression span e ∧ (∀ c ∈ gap, Text.isWhiteSpace c = true) ∧
    (Source.slice source span = token ++ gap ∨ Source.slice source span = token ++ (gap ++ [';']))

/-- Among the first statements of a body, all of them directives, is one that asks for strict
mode. -/
def AsksStrict (directive : Stmt → List Char → Prop) (body : List Stmt) : Prop :=
  ∃ before s after, body = before ++ s :: after ∧ (∀ d ∈ before, ∃ token, directive d token) ∧
    (directive s "\"use strict\"".toList ∨ directive s "'use strict'".toList)

/-! ### The text of a statement -/

theorem isSolid_eq_false {c : Char} : isSolid c = false ↔ Text.isWhiteSpace c = true ∨ c = ';' := by
  rw [isSolid, Bool.and_eq_false_iff, Bool.not_eq_false', bne_eq_false_iff_eq]

namespace Text

variable {p : Char → Bool} {cs tail : List Char}

theorem trimStart_of_head (h : ∀ c ∈ cs.head?, p c = false) : trimStart p cs = cs := by
  cases cs with
  | nil => rfl
  | cons c cs => exact List.dropWhile_cons_of_neg (by simp [h c rfl])

theorem trimEnd_append (h : ∀ c ∈ tail, p c = true) : trimEnd p (cs ++ tail) = trimEnd p cs := by
  unfold trimEnd
  rw [List.reverse_append, List.dropWhile_append_of_pos (by simpa using h)]

theorem trimEnd_concat {c : Char} (h : p c = false) : trimEnd p (cs ++ [c]) = cs ++ [c] := by
  simp [trimEnd, h]

/-- What is cut off at the end. -/
theorem exists_trimEnd (p : Char → Bool) (cs : List Char) :
    ∃ tail, cs = trimEnd p cs ++ tail ∧ ∀ c ∈ tail, p c = true := by
  refine ⟨(cs.reverse.takeWhile p).reverse, ?_, fun c hc => ?_⟩
  · rw [trimEnd, ← List.reverse_append, List.takeWhile_append_dropWhile, List.reverse_reverse]
  · exact List.mem_takeWhile_imp (List.mem_reverse.mp hc)

end Text

section

open Text

variable {body tail gap inner : List Char} {q : Char}

/-- Only white space and semicolons are cut off after the text of a directive. -/
theorem exists_directiveText {cs : List Char} (h : ∀ c ∈ cs.head?, isWhiteSpace c = false) :
    ∃ tail, cs = directiveText cs ++ tail ∧ ∀ c ∈ tail, isSolid c = false := by
  have hstart := trimStart_of_head h
  obtain ⟨tail₁, h₁, hspace₁⟩ := exists_trimEnd isWhiteSpace cs
  obtain ⟨tail₂, h₂, hsemicolon⟩ := exists_trimEnd (· == ';') (trimEnd isWhiteSpace cs)
  obtain ⟨tail₃, h₃, hspace₃⟩ :=
    exists_trimEnd isWhiteSpace (trimEnd (· == ';') (trimEnd isWhiteSpace cs))
  have hhead : ∀ c ∈ (trimEnd (· == ';') (trimEnd isWhiteSpace cs)).head?,
      isWhiteSpace c = false := by
    intro c hc
    refine h c ?_
    rw [h₁, h₂, List.append_assoc]
    exact List.mem_head?_append_of_mem_head? hc
  have htext : directiveText cs =
      trimEnd isWhiteSpace (trimEnd (· == ';') (trimEnd isWhiteSpace cs)) := by
    rw [directiveText, trim, trim, hstart, trimStart_of_head hhead]
  refine ⟨tail₃ ++ tail₂ ++ tail₁, ?_, fun c hc => isSolid_eq_false.mpr ?_⟩
  · rw [htext, ← List.append_assoc, ← List.append_assoc, ← h₃, ← h₂, ← h₁]
  · rcases List.mem_append.mp hc with hc | hc
    · rcases List.mem_append.mp hc with hc | hc
      · exact .inl (hspace₃ c hc)
      · exact .inr (by simpa using hsemicolon c hc)
    · exact .inl (hspace₁ c hc)

theorem of_quotedText? {cs : List Char} (h : quotedText? cs = some inner) :
    ∃ q, (q = '"' ∨ q = '\'') ∧ q ∉ inner ∧ cs = q :: (inner ++ [q]) := by
  unfold quotedText? at h
  split at h
  · next q rest =>
    split at h
    · next hq =>
      cases h
      simp only [Bool.and_eq_true, Bool.or_eq_true, beq_iff_eq, Bool.not_eq_true',
        List.contains_eq_mem, decide_eq_false_iff_not] at hq
      obtain ⟨⟨hquote, hlast⟩, hnot⟩ := hq
      obtain ⟨body, rfl⟩ := List.getLast?_eq_some_iff.mp hlast
      rw [List.dropLast_concat] at hnot ⊢
      exact ⟨q, hquote, hnot, rfl⟩
    · cases h
  · cases h

theorem quotedText?_quoted (hq : q = '"' ∨ q = '\'') (hbody : q ∉ body) :
    quotedText? (q :: (body ++ [q])) = some body := by
  unfold quotedText?
  simp [hbody, hq]

theorem isSolid_quote (hq : q = '"' ∨ q = '\'') : isSolid q = true := by
  rcases hq with rfl | rfl <;> decide

/-- In a text that begins with a quoted one, a directive is seen only if it is this one, without its
quote inside, and if only white space and semicolons follow. -/
theorem of_quotedText?_directiveText (hq : q = '"' ∨ q = '\'')
    (h : quotedText? (directiveText (q :: (body ++ q :: tail))) = some inner) :
    inner = body ∧ q ∉ body ∧ ∀ c ∈ tail, isSolid c = false := by
  have hsolid := isSolid_quote hq
  have hhead : ∀ c ∈ (q :: (body ++ q :: tail)).head?, isWhiteSpace c = false := by
    rintro _ ⟨⟩
    simp only [isSolid, Bool.and_eq_true, Bool.not_eq_true'] at hsolid
    exact hsolid.1
  obtain ⟨cut, hcut, hblank⟩ := exists_directiveText hhead
  obtain ⟨q', hq', hnot, hseen⟩ := of_quotedText? h
  rw [hseen] at hcut
  rw [List.cons_append, List.append_assoc, List.singleton_append] at hcut
  obtain ⟨rfl, hrest⟩ := List.cons.inj hcut
  have hcuts : q ∉ cut := fun hmem => by simp [hblank q hmem] at hsolid
  rw [eq_comm, List.append_cons_inj_of_notMem hnot hcuts] at hrest
  obtain ⟨rfl, -, rfl⟩ := hrest
  exact ⟨rfl, hnot, hblank⟩

/-- The text of a plain directive is its token. -/
theorem directiveText_plain (hq : q = '"' ∨ q = '\'') (hgap : ∀ c ∈ gap, isWhiteSpace c = true)
    (htail : tail = gap ∨ tail = gap ++ [';']) :
    directiveText (q :: (body ++ q :: tail)) = q :: (body ++ [q]) := by
  have hnotspace : isWhiteSpace q = false ∧ (q == ';') = false := by
    rcases hq with rfl | rfl <;> decide
  have hsemicolon : isWhiteSpace ';' = false := by decide
  have hstart (cs : List Char) : trimStart isWhiteSpace (q :: cs) = q :: cs :=
    trimStart_of_head (by rintro _ ⟨⟩; exact hnotspace.1)
  have htoken (p : Char → Bool) (hp : p q = false) :
      trimEnd p (q :: (body ++ [q])) = q :: (body ++ [q]) :=
    @trimEnd_concat p (q :: body) q hp
  have hspaces : trimEnd isWhiteSpace (q :: (body ++ q :: gap)) = q :: (body ++ [q]) := by
    have heq : q :: (body ++ q :: gap) = q :: (body ++ [q]) ++ gap := by simp
    rw [heq, trimEnd_append hgap, htoken _ hnotspace.1]
  rw [directiveText, trim, trim, hstart]
  rcases htail with rfl | rfl
  · rw [hspaces, htoken _ hnotspace.2, hstart, htoken _ hnotspace.1]
  · have heq : q :: (body ++ q :: (gap ++ [';'])) = (q :: (body ++ q :: gap)) ++ [';'] := by simp
    rw [heq, trimEnd_concat hsemicolon, trimEnd_append (by simp)]
    -- White space before the semicolon is no semicolon.
    have hkeep : trimEnd (· == ';') (q :: (body ++ q :: gap)) = q :: (body ++ q :: gap) := by
      rcases List.eq_nil_or_concat gap with rfl | ⟨front, x, rfl⟩
      · exact htoken _ hnotspace.2
      · have hx : (x == ';') = false := by
          rw [beq_eq_false_iff_ne]
          rintro rfl
          exact absurd (hgap ';' (by simp)) (by simp [hsemicolon])
        have heq : q :: (body ++ q :: (front ++ [x])) = (q :: (body ++ q :: front)) ++
            [x] := by simp
        rw [List.concat_eq_append, heq]
        exact trimEnd_concat (p := (· == ';')) hx
    rw [hkeep, hstart, hspaces]

end

/-! ### Statements -/

/-- A lookahead takes nothing. -/
theorem Pattern.matched_ahead {phrase : Phrase → Matcher} {a : Pattern} {wanted : Bool}
    {furthest furthest' : Nat} {c next : Cursor} {trees : List Tree}
    (h : (Pattern.ahead a).match_ phrase wanted furthest c = ⟨.matched trees next, furthest'⟩) :
    trees = [] ∧ next = c := by
  simp only [match_] at h
  split at h
  · cases h
    exact ⟨rfl, rfl⟩
  · next hnot => exact absurd h (hnot _ _ _)

/-- The end of a statement is a semicolon or nothing. -/
theorem Pattern.matched_statementEnd {phrase : Phrase → Matcher} {wanted : Bool}
    {furthest furthest' : Nat} {c next : Cursor} {trees : List Tree}
    (h : statementEnd.match_ phrase wanted furthest c = ⟨.matched trees next, furthest'⟩) :
    trees = [] ∧ ∃ e, c.Leads e next ∧ (e = [] ∨ e = [';']) := by
  have hnothing {a : Pattern} {f : Nat} (h : (Pattern.ahead a).match_ phrase wanted f c =
      ⟨.matched trees next, furthest'⟩) : trees = [] ∧ ∃ e, c.Leads e next ∧ (e = [] ∨
        e = [';']) := by
    obtain ⟨rfl, rfl⟩ := matched_ahead h
    exact ⟨rfl, [], .refl next, .inl rfl⟩
  change (Pattern.alt (.chars [';']) (.alt (.ahead _) (.ahead _))).match_ phrase wanted
    furthest c = _ at h
  rw [match_] at h
  split at h
  · rw [match_] at h
    split at h
    · exact hnothing h
    · exact hnothing h
  · rw [match_] at h
    split at h
    · next rest hrest =>
      cases h
      exact ⟨rfl, [';'], c.leads_advance (Token.after?_eq_some hrest), .inr rfl⟩
    · cases h

/-- An expression statement is an expression at the place of the statement, with blanks and at most
a semicolon after it. -/
theorem Tree.Traced.expressionStatement {source : List Char} {span : Span} {children : List Tree}
    (h : (Tree.node .expressionStatement span children).Traced source) :
    ∃ (c d next : Cursor) (text e : List Char), c.On source ∧ span = ⟨c.offset, next.offset⟩ ∧
      (∀ t ∈ children, Position.expression.Takes t) ∧ c.Leads text next ∧
        c.Opens source children d ∧
      d.Leads e next ∧ (e = [] ∨ e = [';']) := by
  cases h with
  | @node _ fuel wanted furthest furthest' c next _ on settled run parts =>
    obtain ⟨_, _, d, _, hwithout, hrest, rfl⟩ := Pattern.matched_seq run
    -- The lookahead takes nothing.
    simp only [Pattern.match_] at hwithout
    split at hwithout <;> cases hwithout
    rw [settled] at hrest
    obtain ⟨l, _, d, _, hexpression, hend, rfl⟩ := Pattern.matched_seq hrest
    obtain ⟨rfl, e, hleads, he⟩ := Pattern.matched_statementEnd hend
    have hopens := (Phrase.opens_match source fuel .expression rfl on hexpression).skip
    obtain ⟨text, htext⟩ := (Pattern.reads_match (Phrase.reads_match source fuel) _ on run).leads
    obtain ⟨inner, parts, rfl⟩ := (Phrase.reads_match source fuel .expression on hexpression).shape
    exact ⟨c, d.skip, next, text, e, on, rfl, List.forall_mem_singleton.mpr rfl, htext, hopens,
      hleads, he⟩

section

variable {source : List Char} {t : Tree} {s : Stmt} {strict : Bool} {inner : List Char}

theorem isSolid_of_isPlainStart {x : Char} (h : isPlainStart x = true) :
    isSolid x = true ∧ x ≠ '"' ∧ x ≠ '\'' := by
  simpa [isPlainStart, and_assoc] using h

/-- In a text that begins with a plain character no directive is seen. -/
theorem quotedText?_directiveText_plain {text rest : List Char} (h : BeginsPlain (text ++ rest)) :
    quotedText? (directiveText text) = none := by
  cases text with
  | nil => rfl
  | cons x text =>
    obtain ⟨_, _, heq, hx⟩ := h
    obtain ⟨rfl, -⟩ := List.cons.inj heq
    obtain ⟨hsolid, hdouble, hsingle⟩ := isSolid_of_isPlainStart hx
    have hhead : ∀ c ∈ (x :: text).head?, Text.isWhiteSpace c = false := by
      rintro _ ⟨⟩
      simp only [isSolid, Bool.and_eq_true, Bool.not_eq_true'] at hsolid
      exact hsolid.1
    obtain ⟨tail, htail, -⟩ := exists_directiveText hhead
    by_contra hsome
    obtain ⟨inner, hinner⟩ := Option.ne_none_iff_exists'.mp hsome
    obtain ⟨q, hq, -, hquoted⟩ := of_quotedText? hinner
    rw [hquoted] at htail
    obtain ⟨rfl, -⟩ := List.cons.inj htail
    exact hq.elim hdouble hsingle

/-- What is seen in a statement is a plain directive. -/
theorem Tree.Traced.isPlainDirective {span : Span} {children : List Tree}
    (h : (Tree.node .expressionStatement span children).Traced source) {c c' : Counters}
    (hrun : Build.stmt source strict (.node .expressionStatement span children) c = .ok (s, c'))
    (hseen : quotedText? (directiveText (Source.slice source span)) = some inner) :
    ∃ q, (q = '"' ∨ q = '\'') ∧ s.IsPlainDirective source (q :: (inner ++ [q])) := by
  obtain ⟨c, d, next, text, e, on, rfl, htakes, htext, hopens, hend, he⟩ := h.expressionStatement
  cases hopens with
  | plain hplain =>
    rw [(htext.covers on).slice, quotedText?_directiveText_plain (htext.1 ▸ hplain)] at hseen
    cases hseen
  | longer scan leads solid =>
    obtain ⟨x, hx, hsolid⟩ := solid
    obtain ⟨-, q, body, hq, rfl⟩ := Token.of_scanString scan
    have hslice := ((leads.trans hend).covers on).slice
    simp only [List.cons_append, List.append_assoc, List.nil_append] at hslice
    rw [hslice] at hseen
    obtain ⟨-, -, hblank⟩ := of_quotedText?_directiveText hq hseen
    rw [hblank x (List.mem_append_left _ hx)] at hsolid
    cases hsolid
  | @sole token rest gap t scan leads blank trees built =>
    subst trees
    obtain ⟨hrest, q, body, hq, rfl⟩ := Token.of_scanString scan
    have hslice := ((leads.trans hend).covers on).slice
    rw [List.append_assoc] at hslice
    have htoken : Source.slice source ⟨c.offset, c.offset + byteSize (q :: (body ++ [q]))⟩ =
        q :: (body ++ [q]) :=
      ((c.leads_advance hrest).covers on).slice
    have hstmt : s = .expression ⟨c.offset, next.offset⟩ (.literal
        ⟨c.offset, c.offset + byteSize (q :: (body ++ [q]))⟩
        (.string (stringLiteralValue (q :: (body ++ [q]))))) := by
      unfold Build.stmt at hrun
      have hrun := Build.ok_of_guarded hrun
      simp only [built .expression strict (List.forall_mem_singleton.mp htakes)] at hrun
      cases hrun
      rfl
    have hseen' := hseen
    rw [hslice] at hseen'
    simp only [List.cons_append, List.append_assoc, List.nil_append] at hseen'
    obtain ⟨rfl, hbody, hblank⟩ := of_quotedText?_directiveText hq hseen'
    -- A slash would be seen, so that there is no comment, and no semicolon before the last one.
    have hsemicolon : ';' ∉ gap := blank.resolve_left fun hslash =>
      absurd (hblank '/' (List.mem_append_left _ hslash)) (by decide)
    have hgap : ∀ x ∈ gap, Text.isWhiteSpace x = true := fun x hx =>
      (isSolid_eq_false.mp (hblank x (List.mem_append_left _ hx))).resolve_right fun hx' =>
        hsemicolon (hx' ▸ hx)
    refine ⟨q, hq, ⟨?_, ⟨q, inner, hq, hbody, rfl⟩, ?_⟩⟩
    · rw [hstmt, Stmt.directive?, if_pos rfl, htoken]
    · refine ⟨_, _, gap, hstmt, hgap, ?_⟩
      rcases he with rfl | rfl
      · exact .inl (by rw [hslice, List.append_nil])
      · exact .inr hslice

/-- A loop is no expression statement. -/
theorem Build.forLoop_not_expression (span : Span) {init : ForInit} {test update : Option Expr} :
    ∀ ts : List Tree, Yields (forLoop source strict span init test update ts) fun s =>
      ∀ at_ e, s ≠ .expression at_ e := by
  intro ts
  unfold forLoop
  split
  · exact .step fun _ => forLoop_not_expression span _
  · exact .step fun _ => forLoop_not_expression span _
  · exact .step fun _ => forLoop_not_expression span _
  · exact .step fun _ => forLoop_not_expression span _
  · exact .step fun _ => .pure (by rintro _ _ ⟨⟩)
  · exact .throw _
termination_by ts => ts.length
decreasing_by all_goals simp [‹ts = _›]

/-- An expression statement is built from one. -/
theorem Build.stmt_expression (t : Tree) : Yields (stmt source strict t) fun s =>
    ∀ span e, s = .expression span e → ∃ children,
      t = .node .expressionStatement span children := by
  cases t with
  | leaf | finish =>
    unfold stmt
    exact .throw _
  | node phrase span children =>
    unfold stmt
    refine .guarded ?_ span
    split
    case h_6 => exact .step fun e => .pure (by rintro _ _ ⟨⟩; exact ⟨_, rfl⟩)
    case h_1 => exact .map (P := fun _ => True) (fun _ _ _ _ => trivial) (by rintro _ _ _ _ ⟨⟩)
    case h_11 => exact fun _ _ _ h at_ e heq => absurd heq (forLoop_not_expression span _ h at_ e)
    all_goals first
      | exact .throw _
      | exact .pure (by rintro _ _ ⟨⟩)
      | exact .step fun _ => .pure (by rintro _ _ ⟨⟩)
      | exact .step fun _ => .step fun _ => .pure (by rintro _ _ ⟨⟩)
      | exact .step fun _ => .step fun _ => .step fun _ => .pure (by rintro _ _ ⟨⟩)

/-- The text between the quotes of a statement that is seen as a directive. -/
def seenText? (entry : Option (List Char)) : Option (List Char) :=
  entry.bind fun statement => quotedText? (directiveText statement)

/-- What is seen in the statements of a body are the plain directives. -/
theorem Build.seen_iff {entry : Option (List Char)} {c c' : Counters} (ht : t.Traced source)
    (hrun : Build.stmt source strict t c = .ok (s, c')) (hentry : directives source [t] = [entry]) :
    seenText? entry = some inner ↔
      ∃ q, (q = '"' ∨ q = '\'') ∧ s.IsPlainDirective source (q :: (inner ++ [q])) := by
  constructor
  · intro hsome
    obtain ⟨statement, rfl, hseen⟩ := Option.bind_eq_some_iff.mp hsome
    rename' hentry => hstatement
    unfold directives at hstatement
    cases t with
    | leaf => cases hstatement
    | finish => cases hstatement
    | node p span children =>
      by_cases hp : p = .expressionStatement
      · subst hp
        cases hstatement
        exact ht.isPlainDirective hrun hseen
      · simp only [List.map_cons, List.map_nil] at hstatement
        split at hstatement
        · next heq => exact absurd (Tree.node.inj heq).1 hp
        · cases hstatement
  · rintro ⟨q, hq, hplain⟩
    obtain ⟨q', body, -, hbody, htoken⟩ := hplain.quoted
    obtain ⟨rfl, hinner⟩ := List.cons.inj htoken
    obtain rfl := List.append_cancel_right hinner
    obtain ⟨span, e, gap, rfl, hgap, htext⟩ := hplain.ends
    obtain ⟨children, rfl⟩ := stmt_expression t hrun span e rfl
    cases hentry
    have htail : ∃ tail, Source.slice source span = q :: (inner ++ q :: tail) ∧
        (tail = gap ∨ tail = gap ++ [';']) := by
      rcases htext with htext | htext
      · exact ⟨gap, by simpa using htext, .inl rfl⟩
      · exact ⟨gap ++ [';'], by simpa using htext, .inr rfl⟩
    obtain ⟨tail, htext, htail⟩ := htail
    rw [seenText?, Option.bind_some, htext, directiveText_plain hq hgap htail,
      quotedText?_quoted hq hbody]

end

/-! ### Bodies -/

section

variable {source : List Char} {D D' : Stmt → List Char → Prop} {s : Stmt} {ss : List Stmt}

theorem asksStrict_nil : ¬ AsksStrict D [] := by
  rintro ⟨before, s, after, h, -⟩
  simp at h

theorem asksStrict_cons : AsksStrict D (s :: ss) ↔
    (D s "\"use strict\"".toList ∨ D s "'use strict'".toList) ∨ (∃ token, D s token) ∧
    AsksStrict D ss := by
  constructor
  · rintro ⟨before, s', after, h, hbefore, hs⟩
    cases before with
    | nil =>
      obtain ⟨rfl, -⟩ := List.cons.inj h
      exact .inl hs
    | cons d before =>
      obtain ⟨rfl, rfl⟩ := List.cons.inj h
      obtain ⟨hd, hbefore⟩ := List.forall_mem_cons.mp hbefore
      exact .inr ⟨hd, before, s', after, rfl, hbefore, hs⟩
  · rintro (hs | ⟨hd, before, s', after, rfl, hbefore, hs⟩)
    · exact ⟨[], s, ss, rfl, nofun, hs⟩
    · exact ⟨s :: before, s', after, rfl, List.forall_mem_cons.mpr ⟨hd, hbefore⟩, hs⟩

/-- A plain directive asks for strict mode by the text between its quotes. -/
theorem Stmt.IsPlainDirective.asks_iff {q : Char} {inner : List Char} (hq : q = '"' ∨ q = '\'')
    (h : s.IsPlainDirective source (q :: (inner ++ [q]))) :
    (s.IsPlainDirective source "\"use strict\"".toList ∨
      s.IsPlainDirective source "'use strict'".toList) ↔
      inner = "use strict".toList := by
  have hunique {token : List Char} (h' : s.IsPlainDirective source token) :
      token = q :: (inner ++ [q]) :=
    Option.some.inj (h'.directive.symm.trans h.directive)
  have hinner (q' : Char) (text : List Char) (htext : q' :: (text ++ [q']) = q :: (inner ++ [q])) :
      inner = text := by
    obtain ⟨rfl, hrest⟩ := List.cons.inj htext
    exact (List.append_cancel_right hrest).symm
  constructor
  · rintro (h' | h')
    · exact hinner '"' _ (hunique h')
    · exact hinner '\'' _ (hunique h')
  · rintro rfl
    rcases hq with rfl | rfl
    · exact .inl h
    · exact .inr h

theorem hasStrictDirective_cons (entry : Option (List Char)) (rest : List (Option (List Char))) :
    hasStrictDirective (entry :: rest) = (seenText? entry).any fun text =>
      text == "use strict".toList || hasStrictDirective rest := by
  cases entry with
  | none => rfl
  | some statement =>
    rw [hasStrictDirective, seenText?, Option.bind_some]
    cases quotedText? (directiveText statement) <;> rfl

/-- The search through the texts of statements finds the plain directives at the head of a body. -/
theorem Build.hasStrictDirective_iff {strict : Bool} : ∀ {trees : List Tree} {ss : List Stmt}
    {c c' : Counters}, (∀ t ∈ trees, t.Traced source) → stmts source strict trees c = .ok (ss, c') →
      (hasStrictDirective (directives source trees) = true ↔
        AsksStrict (Stmt.IsPlainDirective source) ss)
  | [], ss, c, c', _, h => by
    cases h
    exact iff_of_false nofun asksStrict_nil
  | t :: trees, _, c, _, htrees, h => by
    obtain ⟨ht, htrees⟩ := List.forall_mem_cons.mp htrees
    unfold stmts at h
    obtain ⟨s, c₁, hs, h⟩ := bind_eq_ok h
    obtain ⟨ss, c₂, hss, h⟩ := bind_eq_ok h
    cases h
    have hrest := hasStrictDirective_iff htrees hss
    obtain ⟨entry, hentry⟩ : ∃ entry, directives source [t] = [entry] := ⟨_, rfl⟩
    have hseen (inner : List Char) : seenText? entry = some inner ↔ _ := seen_iff ht hs hentry
    have hcons : directives source (t :: trees) = entry :: directives source trees :=
      congrArg (· ++ directives source trees) hentry
    rw [asksStrict_cons, ← hrest, hcons, hasStrictDirective_cons]
    cases hinner : seenText? entry with
    | none =>
      have hnot (token : List Char) : ¬ s.IsPlainDirective source token := fun hplain => by
        obtain ⟨q, body, hq, -, rfl⟩ := hplain.quoted
        exact absurd ((hseen body).mpr ⟨q, hq, hplain⟩) (by simp [hinner])
      simp [hnot]
    | some inner =>
      obtain ⟨q, hq, hplain⟩ := (hseen inner).mp hinner
      have hdirective : ∃ token, s.IsPlainDirective source token := ⟨_, hplain⟩
      rw [hplain.asks_iff hq, Option.any_some, Bool.or_eq_true, beq_iff_eq,
        and_iff_right hdirective]

/-- The directives at the head of a body are all plain. -/
def PlainPrologue (source : List Char) (body : List Stmt) : Prop :=
  ∀ before s after, body = before ++ s :: after →
    (∀ d ∈ before, ∃ token, d.directive? source = some token) →
    ∀ token, s.directive? source = some token → s.IsPlainDirective source token

theorem PlainPrologue.asksStrict_iff (h : PlainPrologue source ss) :
    AsksStrict (Stmt.IsPlainDirective source) ss ↔
      AsksStrict (fun s token => s.directive? source = some token) ss := by
  constructor
  · rintro ⟨before, s, after, rfl, hbefore, hs⟩
    refine ⟨before, s, after, rfl, fun d hd => ?_, hs.imp (·.directive) (·.directive)⟩
    obtain ⟨token, hplain⟩ := hbefore d hd
    exact ⟨token, hplain.directive⟩
  · rintro ⟨before, s, after, rfl, hbefore, hs⟩
    refine ⟨before, s, after, rfl, fun d hd => ?_, ?_⟩
    · obtain ⟨front, back, rfl⟩ := List.append_of_mem hd
      obtain ⟨token, htoken⟩ := hbefore d hd
      refine ⟨token, h front d (back ++ s :: after) (by simp) (fun d' hd' => ?_) token htoken⟩
      exact hbefore d' (List.mem_append_left _ hd')
    · exact hs.imp (h before s after rfl hbefore _) (h before s after rfl hbefore _)

/-- A body in code that is strict or not is strict as its directives say: as the plain ones do, and
so as all of them do if those at its head are plain. -/
structure Directed (source : List Char) (around strict : Bool) (body : List Stmt) : Prop where
  plain : strict = true ↔ around = true ∨ AsksStrict (Stmt.IsPlainDirective source) body
  all : PlainPrologue source body → (strict = true ↔
    around = true ∨ AsksStrict (fun s token => s.directive? source = some token) body)

/-- The functions in code that is strict or not, each with those inside it, are strict as their
directives say. -/
inductive Func.Directed (source : List Char) : Bool → List Func → Prop
  | nil (around : Bool) : Directed source around []
  | cons {around : Bool} {f : Func} {rest : List Func}
    (own : ScriptEngine.Directed source around f.strict f.body)
      (inside : Directed source f.strict f.inside) (after : Directed source around rest) :
      Directed source around (f :: (f.inside ++ rest))

theorem Func.Directed.append {around : Bool} {fs fs' : List Func}
    (h : Func.Directed source around fs) (h' : Func.Directed source around fs') :
    Func.Directed source around (fs ++ fs') := by
  induction h with
  | nil => exact h'
  | cons own inside _ _ ih =>
    rw [List.cons_append, List.append_assoc]
    exact .cons own inside (ih h')

theorem Build.directed {strict around : Bool} {trees : List Tree} {c c' : Counters}
    (htrees : ∀ t ∈ trees, t.Traced source) (hrun : stmts source strict trees c = .ok (ss, c'))
    (hstrict : strict = (around || hasStrictDirective (directives source trees))) :
    Directed source around strict ss := by
  have hplain : strict = true ↔ around = true ∨ AsksStrict (Stmt.IsPlainDirective source) ss := by
    rw [← hasStrictDirective_iff htrees hrun, hstrict, Bool.or_eq_true]
  exact ⟨hplain, fun hprologue => by rw [hplain, hprologue.asksStrict_iff]⟩

theorem Build.collects_directed (source : List Char) :
    Collects source (Tree.Traced source) (Func.Directed source) where
  part := Tree.Traced.parts
  nil := .nil _
  append := Func.Directed.append
  function hbody _ hrun hstrict hinside := by
    have hcons := Func.Directed.cons (directed hbody.parts hrun hstrict) hinside (.nil _)
    rwa [List.append_nil] at hcons

end

/-- A script that was parsed is strict if one of the plain directives at its head asks for strict
mode, and a function is strict if the code around it is, or by such a directive of its own.  Where
all directives at the head of a body are plain, these are all directives. -/
theorem Program.directed_of_parse {source : String} {p : Program}
    (h : Program.parse source = .ok p) :
    Directed source.toList false p.strict p.body ∧
      Func.Directed source.toList p.strict p.funcs := by
  cases htree : Tree.ofSource source.toList with
  | error offset =>
    rw [Program.parse_of_error htree] at h
    cases h
  | ok tree =>
    rw [Program.parse_of_ok htree] at h
    unfold Tree.ofSource at htree
    split at htree
    · next hscript =>
      cases htree
      obtain ⟨span, children, htrees, -⟩ := Parse.parsed_of_script hscript
      cases htrees
      have htraced := Parse.traced_of_script hscript
      cases hbuild : Program.ofTree source.toList (.node .script span children) with
      | error e =>
        rw [hbuild] at h
        cases h
      | ok program =>
        rw [hbuild] at h
        cases h
        simp only [Program.ofTree] at hbuild
        split at hbuild
        · next body counters hrun =>
          cases hbuild
          have helements (f : Tree → Bool) : ∀ t ∈ children.filter f, t.Traced source.toList :=
            fun t ht => htraced t (List.mem_of_mem_filter ht)
          exact ⟨Build.directed (helements _) hrun rfl,
            Build.collects_stmts (Build.collects_directed _) _ _ (helements _) hrun⟩
        · cases hbuild
    · cases htree

theorem Program.directed_of_parse_nested : ∃ p,
    Program.parse "'a'; 'use strict' ; function f() \x7b \x7d" = .ok p ∧ p.strict = true ∧
    Directed "'a'; 'use strict' ; function f() \x7b \x7d".toList false p.strict p.body ∧
    Func.Directed "'a'; 'use strict' ; function f() \x7b \x7d".toList p.strict p.funcs := by
  obtain ⟨p, hp, hstrict⟩ :=
    Program.exists_parse "'a'; 'use strict' ; function f() \x7b \x7d" Program.strict
      (by decide +kernel)
  exact ⟨p, hp, hstrict, directed_of_parse hp⟩

/-- A directive is overlooked if a comment follows it. -/
theorem Program.overlooks_directive : ∃ p, Program.parse "'use strict' /* c */; 1" = .ok p ∧
    AsksStrict (fun s token => s.directive? "'use strict' /* c */; 1".toList = some token) p.body ∧
    p.strict = false := by
  obtain ⟨p, hp, h⟩ := Program.exists_parse "'use strict' /* c */; 1"
    (fun p => p.body.head?.bind (·.directive? "'use strict' /* c */; 1".toList) ==
      some "'use strict'".toList && !p.strict) (by decide +kernel)
  simp only [Bool.and_eq_true, beq_iff_eq, Bool.not_eq_true'] at h
  obtain ⟨hhead, hstrict⟩ := h
  obtain ⟨s, hs, hdirective⟩ := Option.bind_eq_some_iff.mp hhead
  obtain ⟨after, hbody⟩ := List.head?_eq_some_iff.mp hs
  exact ⟨p, hp, ⟨[], s, after, hbody, nofun, .inr hdirective⟩, hstrict⟩

end ScriptEngine
