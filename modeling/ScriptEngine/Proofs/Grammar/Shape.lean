import ScriptEngine.Proofs.Grammar.Reading
import ScriptEngine.Script.Position

/-!
# Shapes of parsed trees

What the patterns of the grammar leave behind, part by part.  The keywords that are passed over
stand where they are looked for.

## Main definitions

* `Token.isExpression`, `Phrase.isStatement` : the kinds of tokens and phrases.
* `Position.Takes` : the trees of expressions at a position.

## Main statements

* `Tree.hasKeywords_of_shape` : the keywords of a parsed phrase are at their places.
* `Pattern.shape_primaryExpression` : what a primary expression is.
-/

namespace ScriptEngine

/-- The tokens that are expressions by themselves. -/
def Token.isExpression : Token → Bool
  | .keyword .this | .identifier | .nullLiteral | .booleanLiteral | .numericLiteral | .stringLiteral
  | .regularExpressionLiteral => true
  | _ => false

/-- The phrases that are statements or function declarations. -/
def Phrase.isStatement : Phrase → Bool
  | .functionDeclaration | .block | .variableStatement | .emptyStatement | .expressionStatement
  | .ifStatement | .doWhileStatement | .whileStatement | .forStatement | .forInStatement
  | .continueStatement | .breakStatement | .returnStatement | .withStatement | .switchStatement
  | .throwStatement | .tryStatement | .debuggerStatement | .labelledStatement => true
  | _ => false

namespace Tree

/-- The trees of statements. -/
def isStatement : Tree → Bool
  | .node p _ _ => p.isStatement
  | _ => false

end Tree

-- These functions have an equation for each phrase.  The equations are made here, once for all the
-- lemmas that use them.
attribute [local grind =] Phrase.pattern Phrase.keywords Phrase.isStatement

/-! ### Shapes of repeated patterns -/

namespace Pattern

open ScriptEngine.Tree

section

variable {a p : Pattern} {ts : List Tree}

@[simp] theorem shape_mark {s : String} : (mark s).Shape ts ↔ ts = [] := Iff.rfl

@[simp] theorem shape_mark_seq {s : String} : (seq (mark s) p).Shape ts ↔ p.Shape ts := by
  constructor
  · rintro ⟨_, m, rfl, rfl, h⟩
    exact h
  · exact fun h => ⟨[], ts, rfl, rfl, h⟩

@[simp] theorem shape_kw_seq {k : Keyword} : (seq (kw k) p).Shape ts ↔
    ∃ span text m, ts = .leaf (.keyword k) span text :: m ∧ p.Shape m := by
  constructor
  · rintro ⟨_, m, rfl, ⟨span, text, rfl⟩, h⟩
    exact ⟨span, text, m, rfl, h⟩
  · rintro ⟨span, text, m, rfl, h⟩
    exact ⟨_, m, rfl, ⟨span, text, rfl⟩, h⟩

@[simp] theorem shape_token_seq {t : Token} : (seq (token t) p).Shape ts ↔
    ∃ span text m, ts = .leaf t span text :: m ∧ p.Shape m := by
  constructor
  · rintro ⟨_, m, rfl, ⟨span, text, rfl⟩, h⟩
    exact ⟨span, text, m, rfl, h⟩
  · rintro ⟨span, text, m, rfl, h⟩
    exact ⟨_, m, rfl, ⟨span, text, rfl⟩, h⟩

@[simp] theorem shape_phrase_seq {q : Phrase} : (seq (phrase q) p).Shape ts ↔
    ∃ span children m, ts = .node q span children :: m ∧ p.Shape m := by
  constructor
  · rintro ⟨_, m, rfl, ⟨span, children, rfl⟩, h⟩
    exact ⟨span, children, m, rfl, h⟩
  · rintro ⟨span, children, m, rfl, h⟩
    exact ⟨_, m, rfl, ⟨span, children, rfl⟩, h⟩

@[simp] theorem shape_optional_seq :
    (seq (optional a) p).Shape ts ↔ p.Shape ts ∨ (seq a p).Shape ts := by
  simp only [Shape]
  constructor
  · rintro ⟨_, m, rfl, rfl | hl, hm⟩
    · exact .inl hm
    · exact .inr ⟨_, m, rfl, hl, hm⟩
  · rintro (h | ⟨l, m, rfl, hl, hm⟩)
    · exact ⟨[], ts, rfl, .inl rfl, h⟩
    · exact ⟨l, m, rfl, .inr hl, hm⟩

@[simp] theorem shape_phrase {q : Phrase} :
    (phrase q).Shape ts ↔ ∃ span children, ts = [.node q span children] :=
  Iff.rfl

@[simp] theorem shape_token {t : Token} :
    (token t).Shape ts ↔ ∃ span text, ts = [.leaf t span text] :=
  Iff.rfl

end

theorem shape_choice {p : Pattern} {ps : List Pattern} {ts : List Tree}
    (h : (choice p ps).Shape ts) :
    ∃ q ∈ p :: ps, q.Shape ts := by
  induction ps generalizing p with
  | nil => exact ⟨p, List.mem_singleton_self p, h⟩
  | cons q ps ih =>
    rcases h with h | h
    · exact ⟨p, List.mem_cons_self, h⟩
    · obtain ⟨r, hr, h⟩ := ih h
      exact ⟨r, List.mem_cons_of_mem _ hr, h⟩

/-- A statement is one tree. -/
theorem shape_statement {ts : List Tree} (h : statement.Shape ts) :
    ∃ t, ts = [t] ∧ t.isStatement = true := by
  obtain ⟨q, hq, h⟩ := shape_choice h
  simp only [List.mem_cons, List.not_mem_nil, or_false] at hq
  rcases hq with rfl | rfl | rfl | rfl | rfl | rfl | rfl | rfl | rfl | rfl | rfl | rfl | rfl | rfl |
    rfl | rfl | rfl | rfl <;> obtain ⟨span, children, rfl⟩ := h <;> exact ⟨_, rfl, rfl⟩

theorem shape_sourceElement {ts : List Tree} (h : sourceElement.Shape ts) :
    ∃ t, ts = [t] ∧ t.isStatement = true := by
  rcases h with ⟨span, children, rfl⟩ | h
  · exact ⟨_, rfl, rfl⟩
  · exact shape_statement h

theorem shape_statementEnd {ts : List Tree} (h : statementEnd.Shape ts) : ts = [] := by
  rcases h with h | h | h <;> exact h

/-- Repetitions of a pattern that leaves one tree behind. -/
theorem shape_many {p : Pattern} {P : Tree → Prop} (hp : ∀ ts, p.Shape ts → ∃ t, ts = [t] ∧ P t)
    {ts : List Tree} (h : (many p).Shape ts) : ∀ t ∈ ts, P t := by
  obtain ⟨ls, rfl, hls⟩ := h
  intro t ht
  obtain ⟨l, hl, ht⟩ := List.mem_flatten.mp ht
  obtain ⟨u, rfl, hu⟩ := hp l (hls l hl)
  exact List.mem_singleton.mp ht ▸ hu

theorem shape_sourceElements {ts : List Tree} (h : (many sourceElement).Shape ts) :
    ∀ t ∈ ts, t.isStatement = true :=
  shape_many (fun _ => shape_sourceElement) h

/-- A pattern that leaves one tree behind and repetitions of it after a mark. -/
theorem shape_separated {s : String} {p : Pattern} {P : Tree → Prop}
    (hp : ∀ ts, p.Shape ts → ∃ t, ts = [t] ∧ P t) {ts : List Tree} (h : (separated s p).Shape ts) :
    ts ≠ [] ∧ ∀ t ∈ ts, P t := by
  obtain ⟨l, m, rfl, hl, hm⟩ := h
  obtain ⟨t, rfl, ht⟩ := hp l hl
  refine ⟨by simp, List.forall_mem_cons.mpr ⟨ht, shape_many (fun ts hts => ?_) hm⟩⟩
  obtain ⟨_, m, rfl, rfl, hm⟩ := hts
  exact hp m hm

/-- One of several phrases is one tree. -/
theorem shape_choice_phrases {P : Tree → Prop} {p : Phrase} (ps : List Phrase)
    (hp : ∀ q ∈ p :: ps, ∀ span children, P (.node q span children)) (ts : List Tree)
    (h : (Pattern.choice (.phrase p) (ps.map .phrase)).Shape ts) : ∃ t, ts = [t] ∧ P t := by
  obtain ⟨q, hq, h⟩ := Pattern.shape_choice h
  rw [← List.map_cons, List.mem_map] at hq
  obtain ⟨q, hq, rfl⟩ := hq
  obtain ⟨span, children, rfl⟩ := h
  exact ⟨_, rfl, hp q hq span children⟩

end Pattern

/-! ### Keywords -/

namespace Tree

open Pattern

variable {p : Phrase} {children : List Tree}

/-- A pattern that begins with a keyword leaves it at the first place. -/
theorem keywordsAt_kw {k : Keyword} {rest : Pattern}
    (hkeywords : ∀ count, p.keywords count = [some k]) (hshape : (seq (kw k) rest).Shape children) :
    keywordsAt p children = true := by
  obtain ⟨span, text, m, rfl, -⟩ := shape_kw_seq.mp hshape
  rw [keywordsAt, hkeywords]
  simp [isKeyword]

/-- The keywords of a phrase stand where they are passed over. -/
theorem keywordsAt_of_shape (hshape : p.pattern.Shape children) : keywordsAt p children = true := by
  cases p
  case functionDeclaration | functionExpression | newExpressionWithArguments | newExpression
      | variableStatement | whileStatement | forStatement | continueStatement | breakStatement
      | returnStatement | withStatement | switchStatement | caseClause | defaultClause
      | throwStatement | tryStatement | catchClause | finallyClause =>
    exact keywordsAt_kw (fun _ => rfl) hshape
  case ifStatement =>
    simp only [Phrase.pattern, Pattern.sequence, Pattern.condition, List.cons_append,
      List.nil_append, shape_kw_seq, shape_mark_seq, shape_phrase_seq] at hshape
    obtain ⟨kwSpan, text, _, rfl, testSpan, test, _, rfl, l, m, rfl, hl, hm⟩ := hshape
    obtain ⟨consequent, rfl, -⟩ := shape_statement hl
    rcases hm with rfl | hm
    · simp [keywordsAt, Phrase.keywords, isKeyword]
    · obtain ⟨elseSpan, elseText, m, rfl, -⟩ := shape_kw_seq.mp hm
      simp [keywordsAt, Phrase.keywords, isKeyword]
  case doWhileStatement =>
    simp only [Phrase.pattern, Pattern.sequence, Pattern.condition, List.cons_append,
      List.nil_append, shape_kw_seq] at hshape
    obtain ⟨kwSpan, text, _, rfl, l, m, rfl, hl, hm⟩ := hshape
    obtain ⟨body, rfl, -⟩ := shape_statement hl
    obtain ⟨whileSpan, whileText, m, rfl, -⟩ := shape_kw_seq.mp hm
    simp [keywordsAt, Phrase.keywords, isKeyword]
  case forInStatement =>
    simp only [Phrase.pattern, Pattern.sequence, shape_kw_seq, shape_mark_seq, shape_phrase_seq]
      at hshape
    obtain ⟨kwSpan, text, _, rfl, bindingSpan, binding, _, rfl, inSpan, inText, m, rfl, -⟩ := hshape
    simp [keywordsAt, Phrase.keywords, isKeyword]
  case forInit =>
    rcases hshape with hshape | ⟨span, inner, rfl⟩
    · obtain ⟨span, text, m, rfl, listSpan, ds, rfl⟩ := shape_kw_seq.mp hshape
      simp [keywordsAt, Phrase.keywords, isKeyword]
    · rfl
  case forInBinding =>
    rcases hshape with hshape | ⟨span, inner, rfl⟩
    · obtain ⟨span, text, m, rfl, nameSpan, name, rfl⟩ := shape_kw_seq.mp hshape
      simp [keywordsAt, Phrase.keywords, isKeyword]
    · rfl
  all_goals simp [keywordsAt, Phrase.keywords]

/-- The keywords of a parsed phrase and of its clauses stand where they are passed over. -/
theorem hasKeywords_of_shape {source : List Char} (hshape : p.pattern.Shape children)
    (hparsed : ∀ t ∈ children, t.Parsed source) : hasKeywords p children = true := by
  rw [hasKeywords, keywordsAt_of_shape hshape, Bool.true_and, List.all_eq_true]
  intro t ht
  cases hparsed t ht with
  | leaf | finish => rfl
  | node _ hshape _ => exact keywordsAt_of_shape hshape

end Tree

/-! ### Positions -/

/-- The trees of expressions at a position. -/
def Position.Takes (position : Position) : Tree → Prop
  | .leaf token .. => position = .atom ∧ token.isExpression = true
  | t => position.admits t = true

namespace Pattern

theorem shape_primaryExpression {ts : List Tree}
    (h : (Phrase.pattern .primaryExpression).Shape ts) :
    ∃ t, ts = [t] ∧ Position.atom.Takes t := by
  obtain ⟨q, hq, h⟩ := shape_choice h
  simp only [List.mem_cons, List.not_mem_nil, or_false] at hq
  rcases hq with rfl | rfl | rfl | rfl | rfl | rfl | rfl | rfl | rfl | rfl | rfl <;>
    obtain ⟨span, parts, rfl⟩ := h
  all_goals first
    | exact ⟨_, rfl, rfl, rfl⟩
    | exact ⟨_, rfl, rfl⟩

end Pattern

end ScriptEngine
