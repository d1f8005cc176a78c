import ScriptEngine.Proofs.Grammar.Shape
import ScriptEngine.Proofs.Number.Completion
import ScriptEngine.Script.Build

/-!
# Building from parsed trees

Every parsed tree describes a script, or is refused because something cannot be assigned to or a
`switch` has two default clauses.  That a tree is malformed never happens: the shapes that patterns
leave behind are those that building takes apart.

## Main definitions

* `Build.Decodes` : a computation does not fail because of a malformed tree.
* `Tree.isExpression`, `Tree.isStatement` : the trees of expressions and of statements.
* `Tree.Contains` : a tree is a part of another one.
* `Tree.Decoded` : all expressions and statements in a tree can be built.

## Main statements

* `Tree.Parsed.decoded` : all expressions and statements in a parsed tree can be built.
* `Program.ofTree_ne_malformed` : the parse tree of a script is not malformed.
-/

namespace ScriptEngine

namespace Build

/-! ### Computations -/

/-- A computation does not fail because of a malformed tree. -/
def Decodes {α : Type} (x : Build α) : Prop :=
  ∀ c span, x c ≠ .error (.malformed span)

namespace Decodes

variable {α β : Type} {x : Build α}

theorem pure (a : α) : Decodes (pure a : Build α) :=
  fun _ _ => nofun

theorem throw {e : BuildError} (h : ∀ span, e ≠ .malformed span) : Decodes (throw e : Build α) := by
  intro c span heq
  cases heq
  exact h span rfl

theorem bind {f : α → Build β} (hx : Decodes x) (hf : ∀ a, Decodes (f a)) : Decodes (x >>= f) := by
  intro c span h
  change (x c >>= fun p => f p.1 p.2) = .error (.malformed span) at h
  cases hxc : x c with
  | error e => rw [hxc] at h; cases h; exact hx c span hxc
  | ok p => rw [hxc] at h; exact hf p.1 p.2 span h

theorem map (hx : Decodes x) (f : α → β) : Decodes (f <$> x) := by
  rw [map_eq_pure_bind]
  exact hx.bind fun a => .pure (f a)

theorem orMalformed {o : Option α} (span : Span) (h : ∃ a, o = some a) :
    Decodes (orMalformed span o) := by
  obtain ⟨a, rfl⟩ := h
  exact .pure a

end Decodes

theorem decodes_nextNode : Decodes nextNode :=
  fun _ _ => nofun

theorem decodes_nextFunction : Decodes nextFunction :=
  fun _ _ => nofun

theorem decodes_identifier (span : Span) (text : List Char) : Decodes (identifier span text) :=
  decodes_nextNode.bind fun _ => .pure _

end Build

/-! ### Parts of trees -/

namespace Tree

/-- A tree is a part of another one. -/
inductive Contains : Tree → Tree → Prop
  | self (t : Tree) : Contains t t
  | child {p : Phrase} {span : Span} {children : List Tree} {t u : Tree} (mem : t ∈ children)
      (h : Contains t u) : Contains (.node p span children) u

/-- All expressions and statements in a tree can be built. -/
structure Decoded (source : List Char) (t : Tree) : Prop where
  expr : ∀ u, t.Contains u → ∀ position strict, Position.Takes position u →
    Build.Decodes (Build.expr source position strict u)
  stmt : ∀ u, t.Contains u → u.isStatement = true → ∀ strict,
    Build.Decodes (Build.stmt source strict u)

theorem Decoded.child {source : List Char} {p : Phrase} {span : Span}
    {children : List Tree} {t : Tree} (h : Decoded source (.node p span children))
    (ht : t ∈ children) : Decoded source t :=
  ⟨fun u hu => h.expr u (.child ht hu), fun u hu => h.stmt u (.child ht hu)⟩

/-- A parsed tree of which all expressions and statements can be built. -/
structure Ready (source : List Char) (t : Tree) : Prop where
  parsed : t.Parsed source
  decoded : t.Decoded source

namespace Ready

variable {source : List Char} {p : Phrase} {span : Span} {children : List Tree} {t : Tree}

theorem child (h : Ready source (.node p span children)) (ht : t ∈ children) : Ready source t := by
  refine ⟨?_, h.decoded.child ht⟩
  cases h.parsed with
  | node covers shape parsed => exact parsed t ht

theorem shape (h : Ready source (.node p span children)) : p.pattern.Shape children := by
  cases h.parsed with
  | node covers shape parsed => exact shape

theorem spells {token : Token} {text : List Char} (h : Ready source (.leaf token span text)) :
    token.Spells text := by
  cases h.parsed with
  | leaf covers spells => exact spells

theorem expression (h : Ready source t) (position : Position) (ht : position.Takes t)
    (strict : Bool) :
    Build.Decodes (Build.expr source position strict t) :=
  h.decoded.expr t (.self t) position strict ht

theorem statement (h : Ready source t) (ht : t.isStatement = true) (strict : Bool) :
    Build.Decodes (Build.stmt source strict t) :=
  h.decoded.stmt t (.self t) ht strict

end Ready

/-- The parts of a parsed tree are parsed. -/
theorem Parsed.of_contains {source : List Char} {t u : Tree} (h : t.Parsed source)
    (hu : t.Contains u) :
    u.Parsed source := by
  induction hu with
  | self => exact h
  | child mem _ ih =>
    cases h with
    | node covers shape parsed => exact ih (parsed _ mem)

end Tree

namespace Build

-- These functions are large, and what unfolds them is made here, once for all the lemmas below.
attribute [local grind =] expr.eq_def stmt.eq_def forLoop

variable {source : List Char}

open ScriptEngine.Tree

/-! ### Lists of trees -/

theorem decodes_exprs {ts : List Tree} (h : ∀ t ∈ ts, Position.assignment.Takes t ∧ t.Ready source)
    (strict : Bool) : Decodes (exprs source strict ts) := by
  induction ts with
  | nil => simp only [exprs]; exact .pure _
  | cons t ts ih =>
    obtain ⟨⟨ht, hd⟩, hts⟩ := List.forall_mem_cons.mp h
    simp only [exprs]
    exact (hd.expression .assignment ht strict).bind fun _ => (ih hts).bind fun _ => .pure _

theorem decodes_stmts {ts : List Tree} (h : ∀ t ∈ ts, t.isStatement = true ∧ t.Ready source)
    (strict : Bool) : Decodes (stmts source strict ts) := by
  induction ts with
  | nil => simp only [stmts]; exact .pure _
  | cons t ts ih =>
    obtain ⟨⟨ht, hd⟩, hts⟩ := List.forall_mem_cons.mp h
    simp only [stmts]
    exact (hd.statement ht strict).bind fun _ => (ih hts).bind fun _ => .pure _

theorem decodes_identifiers {ts : List Tree}
    (h : ∀ t ∈ ts, ∃ span text, t = .leaf .identifier span text) :
    Decodes (identifiers ts) := by
  induction ts with
  | nil => exact .pure _
  | cons t ts ih =>
    obtain ⟨⟨span, text, rfl⟩, hts⟩ := List.forall_mem_cons.mp h
    exact (decodes_identifier span text).bind fun _ => (ih hts).bind fun _ => .pure _

/-- Operands are joined by operators that have a meaning. -/
theorem decodes_chain {operator : Token}
    (hop : operator = .logicalOrOperator ∨ operator = .logicalAndOperator ∨
      ∀ text, operator.Spells text → ∃ op, BinaryOp.ofText? text = some op)
    {ls : List (List Tree)}
    (h : ∀ l ∈ ls, ∃ span text operand, l = [.leaf operator span text, operand] ∧
      operator.Spells text ∧ Position.operand.Takes operand ∧ operand.Ready source)
    (strict : Bool) (left : Expr) : Decodes (chain source strict left ls.flatten) := by
  induction ls generalizing left with
  | nil => simp only [List.flatten_nil, chain]; exact .pure _
  | cons l ls ih =>
    obtain ⟨⟨span, text, operand, rfl, hspells, hoperand, hd⟩, hls⟩ := List.forall_mem_cons.mp h
    simp only [List.flatten_cons, List.cons_append, List.nil_append, chain]
    refine (hd.expression .operand hoperand strict).bind fun right =>
      .bind ?_ fun both => ih hls both
    rcases hop with rfl | rfl | hop
    · exact .pure _
    · exact .pure _
    · unfold joined
      split
      · exact .pure _
      · exact .pure _
      · exact (Decodes.orMalformed span (hop text hspells)).bind fun _ => .pure _

/-! ### Parts of expressions -/

theorem takes_assignment (ts : List Tree) (h : (Pattern.phrase .assignmentExpression).Shape ts) :
    ∃ t, ts = [t] ∧ Position.assignment.Takes t := by
  obtain ⟨span, children, rfl⟩ := h
  exact ⟨_, rfl, rfl⟩

theorem decodes_arguments {span : Span} {children : List Tree}
    (h : Tree.Ready source (.node .arguments span children)) (strict : Bool) :
    Decodes (exprs source strict children) := by
  refine decodes_exprs (fun t ht => ⟨?_, h.child ht⟩) strict
  have hshape := h.shape
  simp only [Phrase.pattern, Pattern.sequence, Pattern.shape_mark_seq, Pattern.shape_optional_seq,
    Pattern.shape_mark] at hshape
  rcases hshape with rfl | ⟨l, _, rfl, hl, rfl⟩
  · cases ht
  · rw [List.append_nil] at ht
    exact (Pattern.shape_separated takes_assignment hl).2 t ht

/-- The phrases that follow what is called or has a property. -/
def Suffix (t : Tree) : Prop :=
  ∃ p span children, t = .node p span children ∧ p ∈ [.arguments, .dotMember, .computedMember]

theorem decodes_withSuffixes {ts : List Tree} (h : ∀ t ∈ ts, Suffix t ∧ t.Ready source)
    (strict : Bool) (base : Expr) : Decodes (withSuffixes source strict base ts) := by
  induction ts generalizing base with
  | nil => simp only [withSuffixes]; exact .pure _
  | cons t ts ih =>
    obtain ⟨⟨⟨p, span, children, rfl, hp⟩, hready⟩, hts⟩ := List.forall_mem_cons.mp h
    have hshape := hready.shape
    simp only [List.mem_cons, List.not_mem_nil, or_false] at hp
    rcases hp with rfl | rfl | rfl
    · simp only [withSuffixes]
      exact (decodes_arguments hready strict).bind fun _ => ih hts _
    · simp only [Phrase.pattern, Pattern.shape_mark_seq, Pattern.shape_token] at hshape
      obtain ⟨nameSpan, name, rfl⟩ := hshape
      simp only [withSuffixes]
      exact ih hts _
    · simp only [Phrase.pattern, Pattern.sequence, Pattern.shape_mark_seq, Pattern.shape_phrase_seq,
        Pattern.shape_mark] at hshape
      obtain ⟨inner, parts, _, rfl, rfl⟩ := hshape
      simp only [withSuffixes]
      exact ((hready.child List.mem_cons_self).expression .expression rfl strict).bind fun _ =>
        ih hts _

theorem decodes_arrayElements {ts : List Tree}
    (h : ∀ t ∈ ts, (∃ span children, t = .node .arrayElement span children) ∧ t.Ready source)
    (strict : Bool) : Decodes (arrayElements source strict ts) := by
  induction ts with
  | nil => simp only [arrayElements]; exact .pure _
  | cons t ts ih =>
    obtain ⟨⟨⟨span, children, rfl⟩, hready⟩, hts⟩ := List.forall_mem_cons.mp h
    rcases hready.shape with rfl | ⟨inner, parts, rfl⟩
    · simp only [arrayElements]
      exact (ih hts).bind fun _ => .pure _
    · simp only [arrayElements]
      exact ((hready.child List.mem_cons_self).expression .assignment rfl strict).bind fun _ =>
        (ih hts).bind fun _ => .pure _

theorem decodes_literal {span : Span} {text : List Char} (h : Token.Spells .numericLiteral text) :
    Decodes (orMalformed span (literalValue? text)) := by
  obtain ⟨cs, rest, h⟩ := h
  exact .orMalformed span (Token.exists_literalValue? h)

theorem decodes_objectProperties {ts : List Tree}
    (h : ∀ t ∈ ts, (∃ span children, t = .node .propertyAssignment span children) ∧ t.Ready source)
    (strict : Bool) : Decodes (objectProperties source strict ts) := by
  induction ts with
  | nil => simp only [objectProperties]; exact .pure _
  | cons t ts ih =>
    obtain ⟨⟨⟨span, children, rfl⟩, hready⟩, hts⟩ := List.forall_mem_cons.mp h
    obtain ⟨l, m, rfl, hkey, hvalue⟩ := hready.shape
    simp only [Pattern.sequence, Pattern.shape_mark_seq, Pattern.shape_phrase] at hvalue
    obtain ⟨inner, parts, rfl⟩ := hvalue
    obtain ⟨q, hq, hkey⟩ := Pattern.shape_choice hkey
    have hdecodes : ∃ t, l = [t] ∧ (t.Ready source → Decodes (propertyKey t)) := by
      simp only [List.mem_cons, List.not_mem_nil, or_false] at hq
      rcases hq with rfl | rfl | rfl <;> obtain ⟨keySpan, text, rfl⟩ := hkey <;>
        refine ⟨_, rfl, fun hready => ?_⟩
      · exact .pure _
      · exact .pure _
      · exact (decodes_literal hready.spells).map _
    obtain ⟨key, rfl, hdecodes⟩ := hdecodes
    simp only [List.cons_append, List.nil_append, objectProperties]
    have hvalue := hready.child (t := .node .assignmentExpression inner parts) (by simp)
    exact (hdecodes (hready.child (by simp))).bind fun _ =>
      (hvalue.expression .assignment rfl strict).bind fun _ =>
      (ih hts).bind fun _ => .pure _

/-! ### Functions -/

/-- The statements of a function's body can be built. -/
theorem decodes_functionBody {span : Span} {children : List Tree}
    (h : Tree.Ready source (.node .functionBody span children)) (strict : Bool) :
    Decodes (stmts source strict children) :=
  decodes_stmts (fun t ht => ⟨Pattern.shape_sourceElements h.shape t ht, h.child ht⟩) strict

theorem decodes_formalParameterList {span : Span} {children : List Tree}
    (h : Tree.Ready source (.node .formalParameterList span children)) :
    Decodes (identifiers children) := by
  refine decodes_identifiers (Pattern.shape_separated (fun ts hts => ?_) h.shape).2
  obtain ⟨span, text, rfl⟩ := hts
  exact ⟨_, rfl, span, text, rfl⟩

theorem decodes_func {name rest : List Tree} {k : Tree}
    (hready : ∀ t ∈ k :: (name ++ rest), t.Ready source)
    (hname : name = [] ∨ ∃ span text, name = [.leaf .identifier span text])
    (hrest : (Pattern.sequence (.mark "(") Pattern.functionRest.tail).Shape rest)
    (strict isExpression : Bool) (span : Span) :
    Decodes (func source strict isExpression span (k :: (name ++ rest))) := by
  simp only [Pattern.functionRest, List.tail_cons, Pattern.sequence, Pattern.shape_mark_seq,
    Pattern.shape_optional_seq, Pattern.shape_phrase_seq, Pattern.shape_mark] at hrest
  rcases hrest with ⟨bodySpan, body, _, rfl, rfl⟩ | ⟨listSpan, params, _, rfl, bodySpan, body, _,
      rfl, rfl⟩ <;>
    rcases hname with rfl | ⟨nameSpan, text, rfl⟩ <;>
    simp only [List.cons_append, List.nil_append, func] at hready ⊢ <;>
    refine decodes_nextFunction.bind fun _ => ?_
  · exact (decodes_functionBody (hready (.node .functionBody bodySpan body) (by simp)) _).bind
      fun _ => .pure _
  · exact (decodes_identifier _ _).bind fun _ =>
      (decodes_functionBody (hready (.node .functionBody bodySpan body) (by simp)) _).bind
        fun _ => .pure _
  · exact (decodes_formalParameterList
      (hready (.node .formalParameterList listSpan params) (by simp))).bind fun _ =>
      (decodes_functionBody (hready (.node .functionBody bodySpan body) (by simp)) _).bind
        fun _ => .pure _
  · exact (decodes_identifier _ _).bind fun _ =>
      (decodes_formalParameterList
        (hready (.node .formalParameterList listSpan params) (by simp))).bind
        fun _ =>
          (decodes_functionBody (hready (.node .functionBody bodySpan body) (by simp)) _).bind
            fun _ => .pure _

/-! ### Expressions -/

theorem decodes_leaf {t : Token} (ht : t.isExpression = true) {span : Span} {text : List Char}
    (hspells : t.Spells text) : Decodes (leaf t span text) := by
  unfold leaf
  split
  · exact .pure _
  · exact (decodes_identifier span text).map _
  · exact .pure _
  · exact .pure _
  · exact (decodes_literal hspells).bind fun _ => .pure _
  · exact .pure _
  · exact .pure _
  · next hthis hidentifier hnull hboolean hnumeric hstring hregular =>
    cases t with
    | keyword k => cases k <;> first | exact absurd rfl hthis | cases ht
    | _ => contradiction

/-- Operands on one level are joined. -/
theorem decodes_operands {operand : Phrase} {operator : Token}
    (hoperand : Position.operand.phrases.contains operand = true)
    (hop : operator = .logicalOrOperator ∨ operator = .logicalAndOperator ∨
      ∀ text, operator.Spells text → ∃ op, BinaryOp.ofText? text = some op)
    {ts : List Tree} (hshape : (Pattern.operands operand operator).Shape ts)
    (hready : ∀ t ∈ ts, t.Ready source) (strict : Bool) :
    ∃ first rest, ts = first :: rest ∧
      Decodes (expr source .operand strict
        first >>= fun left => chain source strict left rest) := by
  simp only [Pattern.operands, Pattern.shape_phrase_seq] at hshape
  obtain ⟨span, children, _, rfl, ls, rfl, hls⟩ := hshape
  refine ⟨_, _, rfl,
    ((hready _ List.mem_cons_self).expression .operand hoperand strict).bind fun left =>
    decodes_chain hop (fun l hl => ?_) strict left⟩
  have hmem {t : Tree} (ht : t ∈ l) : t.Ready source :=
    hready t (List.mem_cons_of_mem _ (List.mem_flatten.mpr ⟨l, hl, ht⟩))
  have h := hls l hl
  simp only [Pattern.shape_token_seq, Pattern.shape_phrase] at h
  obtain ⟨opSpan, text, _, rfl, rightSpan, right, rfl⟩ := h
  exact ⟨opSpan, text, _, rfl, (hmem List.mem_cons_self).spells, hoperand, hmem (by simp)⟩

/-- The operators of a token have a meaning if all spellings of the token do. -/
theorem exists_binaryOp_of_spells {t : Token} (ht : t ∈ [.multiplicativeOperator, .additiveOperator,
      .shiftOperator, .relationalOperator, .equalityOperator, .bitwiseAndOperator,
      .bitwiseXorOperator, .bitwiseOrOperator]) (text : List Char) (h : t.Spells text) :
    ∃ op, BinaryOp.ofText? text = some op := by
  obtain ⟨cs, rest, h⟩ := h
  have hscan : Token.scanOperator t.spellings cs = some (text, rest) := by
    simp only [List.mem_cons, List.not_mem_nil, or_false] at ht
    rcases ht with rfl | rfl | rfl | rfl | rfl | rfl | rfl | rfl <;> exact h
  exact Token.exists_binaryOp ht (Token.of_scanOperator hscan).2

/-- The head of a call or of a property reference and what follows it. -/
theorem decodes_head {ts : List Tree} {head suffix : Pattern}
    (hhead : ∀ ts, head.Shape ts → ∃ t, ts = [t] ∧ Position.head.Takes t)
    (hsuffix : ∀ ts, suffix.Shape ts → ∃ t, ts = [t] ∧ Suffix t)
    (hshape : (Pattern.seq head (.many suffix)).Shape ts) (hready : ∀ t ∈ ts, t.Ready source)
    (strict : Bool) : ∃ first rest, ts = first :: rest ∧
      Decodes (expr source .head strict
        first >>= fun base => withSuffixes source strict base rest) := by
  obtain ⟨l, m, rfl, hl, hm⟩ := hshape
  obtain ⟨t, rfl, ht⟩ := hhead l hl
  have hsuffixes := Pattern.shape_many hsuffix hm
  exact ⟨t, m, rfl, ((hready t (by simp)).expression .head ht strict).bind fun base =>
    decodes_withSuffixes (fun u hu => ⟨hsuffixes u hu, hready u (by simp [hu])⟩) strict base⟩

theorem shape_objectLiteral {ts : List Tree} (h : (Phrase.pattern .objectLiteral).Shape ts) :
    ∀ t ∈ ts, ∃ span children, t = .node .propertyAssignment span children := by
  simp only [Phrase.pattern, Pattern.sequence, Pattern.shape_mark_seq, Pattern.shape_optional_seq,
    Pattern.shape_mark] at h
  rcases h with rfl | ⟨l, _, rfl, hl, rfl⟩
  · exact List.forall_mem_nil _
  · simp only [Pattern.shape_phrase_seq] at hl
    obtain ⟨span, children, _, rfl, m, n, rfl, hm, hn⟩ := hl
    have hn : n = [] := hn.elim id id
    subst hn
    simp only [List.append_nil]
    refine List.forall_mem_cons.mpr ⟨⟨span, children, rfl⟩,
      Pattern.shape_many (fun ts hts => ?_) hm⟩
    simp only [Pattern.shape_mark_seq, Pattern.shape_phrase] at hts
    obtain ⟨span, children, rfl⟩ := hts
    exact ⟨_, rfl, span, children, rfl⟩

/-- A parsed phrase that stands at a position. -/
structure Placed (source : List Char) (position : Position) (p : Phrase)
    (children : List Tree) : Prop where
  admitted : (position.phrases.contains p && Tree.hasKeywords p children) = true
  shape : p.pattern.Shape children
  ready : ∀ t ∈ children, t.Ready source

theorem decodes_arrayLiteral {position : Position} {span : Span} {children : List Tree}
    (h : Placed source position .arrayLiteral children) (strict : Bool) :
    Decodes (expr source position strict (.node .arrayLiteral span children)) := by
  unfold expr
  rw [if_pos h.admitted]
  refine (decodes_arrayElements (fun t ht => ⟨?_, h.ready t ht⟩) strict).bind fun _ => .pure _
  have hshape := h.shape
  simp only [Phrase.pattern, Pattern.sequence, Pattern.shape_mark_seq, Pattern.shape_optional_seq,
    Pattern.shape_mark] at hshape
  rcases hshape with rfl | ⟨l, _, rfl, hl, rfl⟩
  · cases ht
  · rw [List.append_nil] at ht
    refine (Pattern.shape_separated (P := fun t => ∃ span children,
      t = .node .arrayElement span children)
      (fun ts hts => ?_) hl).2 t ht
    obtain ⟨inner, parts, rfl⟩ := hts
    exact ⟨_, rfl, inner, parts, rfl⟩

theorem decodes_postfixExpression {position : Position} {span : Span} {children : List Tree}
    (h : Placed source position .postfixExpression children) (strict : Bool) :
    Decodes (expr source position strict (.node .postfixExpression span children)) := by
  obtain ⟨hadmitted, hshape, hready⟩ := h
  simp only [Phrase.pattern, Pattern.shape_phrase_seq] at hshape
  obtain ⟨operandSpan, operand, _, rfl, rfl | ⟨opSpan, op, rfl⟩⟩ := hshape <;>
    unfold expr <;> rw [if_pos hadmitted]
  · exact (hready (.node .lhsExpression operandSpan operand) (by simp)).expression
      .leftHand rfl strict
  · refine ((hready _ List.mem_cons_self).expression .leftHand rfl strict).bind fun argument => ?_
    split
    · exact .throw (by simp)
    · obtain ⟨cs, rest, h⟩ := (hready (.leaf .postfixOperator opSpan op) (by simp)).spells
      exact (Decodes.orMalformed opSpan (Token.exists_updateOp (Token.of_scanOperator h).2)).bind
        fun _ => .pure _

theorem decodes_unaryExpression {position : Position} {span : Span} {children : List Tree}
    (h : Placed source position .unaryExpression children) (strict : Bool) :
    Decodes (expr source position strict (.node .unaryExpression span children)) := by
  obtain ⟨hadmitted, hshape, hready⟩ := h
  rcases hshape with h | ⟨operandSpan, operand, rfl⟩
  · simp only [Pattern.shape_token_seq, Pattern.shape_phrase] at h
    obtain ⟨opSpan, op, _, rfl, operandSpan, operand, rfl⟩ := h
    unfold expr
    rw [if_pos hadmitted]
    refine ((hready (.node .unaryExpression operandSpan operand) (by simp)).expression .unary
      rfl strict).bind fun argument => ?_
    split
    · split
      · exact .throw (by simp)
      · exact .pure _
    · next hnone =>
      obtain ⟨cs, rest, h⟩ := (hready (.leaf .unaryOperator opSpan op) (by simp)).spells
      have h := Token.exists_unaryOp (Token.of_scanOperator h).2 hnone
      exact (Decodes.orMalformed opSpan h).bind fun _ => .pure _
  · unfold expr
    rw [if_pos hadmitted]
    exact (hready (.node .postfixExpression operandSpan operand) (by simp)).expression
      .postfixed rfl strict

theorem decodes_conditionalExpression {position : Position} {span : Span} {children : List Tree}
    (h : Placed source position .conditionalExpression children) (strict : Bool) :
    Decodes (expr source position strict (.node .conditionalExpression span children)) := by
  obtain ⟨hadmitted, hshape, hready⟩ := h
  simp only [Phrase.pattern, Pattern.shape_phrase_seq] at hshape
  obtain ⟨testSpan, test, _, rfl, rfl | h⟩ := hshape
  · unfold expr
    rw [if_pos hadmitted]
    exact (hready (.node .logicalOrExpression testSpan test) (by simp)).expression
      .operand rfl strict
  · simp only [Pattern.sequence, Pattern.shape_mark_seq, Pattern.shape_phrase_seq,
      Pattern.shape_phrase] at h
    obtain ⟨consSpan, consequent, _, rfl, altSpan, alternate, rfl⟩ := h
    have htest := hready (.node .logicalOrExpression testSpan test) (by simp)
    have hconsequent := hready (.node .assignmentExpression consSpan consequent) (by simp)
    have halternate := hready (.node .assignmentExpression altSpan alternate) (by simp)
    unfold expr
    rw [if_pos hadmitted]
    exact (htest.expression .operand rfl strict).bind fun _ =>
      (hconsequent.expression .assignment rfl strict).bind fun _ =>
      (halternate.expression .assignment rfl strict).bind fun _ => .pure _

theorem decodes_assignmentExpression {position : Position} {span : Span} {children : List Tree}
    (h : Placed source position .assignmentExpression children) (strict : Bool) :
    Decodes (expr source position strict (.node .assignmentExpression span children)) := by
  obtain ⟨hadmitted, hshape, hready⟩ := h
  rcases hshape with h | ⟨valueSpan, value, rfl⟩
  · simp only [Pattern.sequence, Pattern.shape_phrase_seq, Pattern.shape_token_seq,
      Pattern.shape_phrase] at h
    obtain ⟨leftSpan, left, _, rfl, opSpan, op, _, rfl, rightSpan, right, rfl⟩ := h
    unfold expr
    rw [if_pos hadmitted]
    refine ((hready (.node .lhsExpression leftSpan left) (by simp)).expression .leftHand
      rfl strict).bind fun place => ?_
    split
    · exact .throw (by simp)
    · obtain ⟨cs, rest, h⟩ := (hready (.leaf .assignmentOperator opSpan op) (by simp)).spells
      have h := Token.exists_assignOp (Token.of_scanOperator h).2
      exact (Decodes.orMalformed opSpan h).bind fun _ =>
        ((hready (.node .assignmentExpression rightSpan right) (by simp)).expression .assignment rfl
          strict).bind fun _ => .pure _
  · unfold expr
    rw [if_pos hadmitted]
    exact (hready (.node .conditionalExpression valueSpan value) (by simp)).expression
      .conditional rfl strict

theorem decodes_expression {position : Position} {span : Span} {children : List Tree}
    (h : Placed source position .expression children) (strict : Bool) :
    Decodes (expr source position strict (.node .expression span children)) := by
  obtain ⟨hadmitted, hshape, hready⟩ := h
  obtain ⟨hne, hexprs⟩ := Pattern.shape_separated takes_assignment hshape
  unfold expr
  rw [if_pos hadmitted]
  rcases children with _ | ⟨only, _ | ⟨second, rest⟩⟩
  · exact absurd rfl hne
  · exact (hready only (by simp)).expression .assignment (hexprs only (by simp)) strict
  · exact (decodes_exprs (fun t ht => ⟨hexprs t ht, hready t ht⟩) strict).bind fun _ => .pure _

/-- The heads of expressions. -/
theorem decodes_expr_head {p : Phrase} (hp : p ∈ Position.head.phrases ∨ p = .lhsExpression)
    {position : Position} {span : Span} {children : List Tree}
    (h : Placed source position p children) (strict : Bool) :
    Decodes (expr source position strict (.node p span children)) := by
  obtain ⟨hadmitted, hshape, hready⟩ := h
  simp only [Position.phrases, List.mem_cons, List.not_mem_nil, or_false, or_assoc] at hp
  unfold expr
  rw [if_pos hadmitted]
  rcases hp with rfl | rfl | rfl | rfl | rfl
  · simp only [Phrase.pattern, Pattern.sequence, Pattern.shape_kw_seq, Pattern.shape_phrase_seq,
      Pattern.shape_phrase] at hshape
    obtain ⟨kwSpan, text, _, rfl, calleeSpan, callee, _, rfl, argSpan, arguments, rfl⟩ := hshape
    exact ((hready (.node .memberExpression calleeSpan callee) (by simp)).expression .member
      rfl strict).bind fun _ =>
        (decodes_arguments (hready (.node .arguments argSpan arguments) (by simp)) strict).bind
          fun _ => .pure _
  · simp only [Phrase.pattern, Pattern.shape_kw_seq] at hshape
    obtain ⟨kwSpan, text, _, rfl, hcallee⟩ := hshape
    obtain ⟨callee, rfl, htakes⟩ := Pattern.shape_choice_phrases (P := Position.head.Takes)
      [.memberExpression] (by simp [Position.Takes, Position.admits, Position.phrases]) _ hcallee
    exact ((hready callee (by simp)).expression .head htakes strict).bind fun _ => .pure _
  · obtain ⟨t, rfl, ht⟩ := Pattern.shape_primaryExpression hshape
    exact (hready t (by simp)).expression .atom ht strict
  · obtain ⟨first, rest, rfl, h⟩ := decodes_head
      (Pattern.shape_choice_phrases [.primaryExpression]
        (by simp [Position.Takes, Position.admits, Position.phrases]))
      (Pattern.shape_choice_phrases [.computedMember] (by simp [Suffix])) hshape hready strict
    exact h
  · obtain ⟨first, rest, rfl, h⟩ := decodes_head
      (Pattern.shape_choice_phrases [.newExpression, .primaryExpression]
        (by simp [Position.Takes, Position.admits, Position.phrases]))
      (Pattern.shape_choice_phrases [.dotMember, .computedMember] (by simp [Suffix])) hshape
        hready strict
    exact h

/-- The phrases that are primary expressions. -/
theorem decodes_expr_atom {p : Phrase} (hp : p ∈ Position.atom.phrases) {position : Position}
    {span : Span} {children : List Tree} (h : Placed source position p children) (strict : Bool) :
    Decodes (expr source position strict (.node p span children)) := by
  simp only [Position.phrases, List.mem_cons, List.not_mem_nil, or_false] at hp
  rcases hp with rfl | rfl | rfl | rfl
  · exact decodes_arrayLiteral h strict
  all_goals
    obtain ⟨hadmitted, hshape, hready⟩ := h
    unfold expr
    rw [if_pos hadmitted]
  · exact (decodes_objectProperties (fun t ht => ⟨shape_objectLiteral hshape t ht, hready t ht⟩)
      strict).bind fun _ => .pure _
  · simp only [Phrase.pattern, Pattern.sequence, Pattern.shape_kw_seq] at hshape
    obtain ⟨kwSpan, text, _, rfl, name, rest, rfl, hname, hrest⟩ := hshape
    exact (decodes_func hready hname hrest strict true span).map _
  · simp only [Phrase.pattern, Pattern.sequence, Pattern.shape_mark_seq, Pattern.shape_phrase_seq,
      Pattern.shape_mark] at hshape
    obtain ⟨inner, parts, _, rfl, rfl⟩ := hshape
    exact (hready (.node .expression inner parts) (by simp)).expression .expression rfl strict

/-- The phrases of operands with operators between them. -/
theorem decodes_expr_infix {p : Phrase} (hp : p ∈ Phrase.infixes) {position : Position}
    {span : Span} {children : List Tree} (h : Placed source position p children) (strict : Bool) :
    Decodes (expr source position strict (.node p span children)) := by
  obtain ⟨hadmitted, hshape, hready⟩ := h
  -- what the builder does with one operand level, whatever the level is
  have hlevel {operand : Phrase} {operator : Token}
      (hoperand : Position.operand.phrases.contains operand = true)
      (hop : operator = .logicalOrOperator ∨ operator = .logicalAndOperator ∨
        operator ∈ [.multiplicativeOperator, .additiveOperator, .shiftOperator, .relationalOperator,
          .equalityOperator, .bitwiseAndOperator, .bitwiseXorOperator, .bitwiseOrOperator])
      (h : (Pattern.operands operand operator).Shape children) : ∃ first rest,
        children = first :: rest ∧
          Decodes (expr source .operand strict
            first >>= fun left => chain source strict left rest) :=
    decodes_operands hoperand (hop.imp_right (Or.imp_right exists_binaryOp_of_spells)) h
      hready strict
  have hinfix : Phrase.infixes.contains p = true := List.contains_iff_mem.mpr hp
  simp only [Phrase.infixes, List.mem_cons, List.not_mem_nil, or_false] at hp
  unfold expr
  rw [if_pos hadmitted]
  rcases hp with rfl | rfl | rfl | rfl | rfl | rfl | rfl | rfl | rfl | rfl <;>
  · obtain ⟨first, rest, rfl, h⟩ := hlevel rfl (by simp) hshape
    dsimp only
    rw [if_pos hinfix]
    exact h

/-- The expression of a phrase can be built at every position where the phrase can stand. -/
theorem decodes_expr_node {position : Position} {p : Phrase} {span : Span} {children : List Tree}
    (hposition : position.Takes (.node p span children)) (hshape : p.pattern.Shape children)
    (hready : ∀ t ∈ children, t.Ready source) (strict : Bool) :
    Decodes (expr source position strict (.node p span children)) := by
  have hcontains : position.phrases.contains p = true := hposition
  have hplaced : Placed source position p children := by
    refine ⟨?_, hshape, hready⟩
    rw [hcontains, Tree.hasKeywords_of_shape hshape fun t ht => (hready t ht).parsed]
    rfl
  have hmem := List.contains_iff_mem.mp hcontains
  cases position
  case operand =>
    rcases List.mem_cons.mp hmem with rfl | hmem
    · exact decodes_unaryExpression hplaced strict
    · exact decodes_expr_infix hmem hplaced strict
  case head => exact decodes_expr_head (.inl hmem) hplaced strict
  case atom => exact decodes_expr_atom hmem hplaced strict
  all_goals obtain rfl := List.mem_singleton.mp hmem
  · exact decodes_expression hplaced strict
  · exact decodes_assignmentExpression hplaced strict
  · exact decodes_conditionalExpression hplaced strict
  · exact decodes_unaryExpression hplaced strict
  · exact decodes_postfixExpression hplaced strict
  · exact decodes_expr_head (.inr rfl) hplaced strict
  · exact decodes_expr_head (.inl (by decide)) hplaced strict

/-! ### Parts of statements -/

theorem decodes_declarators {ts : List Tree}
    (h : ∀ t ∈ ts, (∃ span children, t = .node .variableDeclaration span children) ∧ t.Ready source)
    (strict : Bool) : Decodes (declarators source strict ts) := by
  induction ts with
  | nil => simp only [declarators]; exact .pure _
  | cons t ts ih =>
    obtain ⟨⟨⟨span, children, rfl⟩, hready⟩, hts⟩ := List.forall_mem_cons.mp h
    have hshape := hready.shape
    simp only [Phrase.pattern, Pattern.shape_token_seq] at hshape
    obtain ⟨nameSpan, name, _, rfl, rfl | hinit⟩ := hshape
    · simp only [declarators]
      exact (decodes_identifier _ _).bind fun _ => (ih hts).bind fun _ => .pure _
    · simp only [Pattern.shape_mark_seq, Pattern.shape_phrase] at hinit
      obtain ⟨initSpan, init, rfl⟩ := hinit
      have hinit := hready.child (t := .node .assignmentExpression initSpan init) (by simp)
      simp only [declarators]
      exact (decodes_identifier _ _).bind fun _ =>
        (hinit.expression .assignment rfl strict).bind fun _ =>
        (ih hts).bind fun _ => .pure _

theorem decodes_variableDeclarationList {span : Span} {children : List Tree}
    (h : Tree.Ready source (.node .variableDeclarationList span children)) (strict : Bool) :
    Decodes (declarators source strict children) := by
  refine decodes_declarators (fun t ht => ⟨?_, h.child ht⟩) strict
  refine (Pattern.shape_separated (P := fun t => ∃ span children,
    t = .node .variableDeclaration span children)
    (fun ts hts => ?_) h.shape).2 t ht
  obtain ⟨span, children, rfl⟩ := hts
  exact ⟨_, rfl, span, children, rfl⟩

theorem decodes_blockBody {children : List Tree} (hshape : (Phrase.pattern .block).Shape children)
    (hready : ∀ t ∈ children, t.Ready source) (strict : Bool) :
    Decodes (stmts source strict children) := by
  refine decodes_stmts (fun t ht => ⟨?_, hready t ht⟩) strict
  simp only [Phrase.pattern, Pattern.sequence, Pattern.shape_mark_seq] at hshape
  obtain ⟨l, _, rfl, hl, rfl⟩ := hshape
  exact Pattern.shape_sourceElements hl t (by simpa using ht)

theorem decodes_block {span : Span} {children : List Tree}
    (h : Tree.Ready source (.node .block span children)) (strict : Bool) :
    Decodes (block source strict (.node .block span children)) := by
  simp only [block]
  exact (decodes_blockBody h.shape (fun _ => h.child) strict).bind fun _ => .pure _

theorem decodes_catchClause {span : Span} {children : List Tree}
    (h : Tree.Ready source (.node .catchClause span children)) (strict : Bool) :
    Decodes (catchClause source strict (.node .catchClause span children)) := by
  have hshape := h.shape
  simp only [Phrase.pattern, Pattern.sequence, Pattern.shape_kw_seq, Pattern.shape_mark_seq,
    Pattern.shape_token_seq, Pattern.shape_phrase] at hshape
  obtain ⟨kwSpan, text, _, rfl, nameSpan, name, _, rfl, bodySpan, body, rfl⟩ := hshape
  simp only [catchClause]
  exact (decodes_identifier _ _).bind fun _ =>
    (decodes_block (h.child (t := .node .block bodySpan body) (by simp)) strict).bind
      fun _ => .pure _

theorem shape_finallyClause {span : Span} {children : List Tree}
    (h : Tree.Ready source (.node .finallyClause span children)) :
    ∃ keyword bodySpan body, children = [keyword, .node .block bodySpan body] ∧
      ∀ strict, Decodes (block source strict (.node .block bodySpan body)) := by
  have hshape := h.shape
  simp only [Phrase.pattern, Pattern.shape_kw_seq, Pattern.shape_phrase] at hshape
  obtain ⟨kwSpan, text, _, rfl, bodySpan, body, rfl⟩ := hshape
  exact ⟨_, bodySpan, body, rfl, decodes_block (h.child (by simp))⟩

theorem decodes_forInTarget {span : Span} {children : List Tree}
    (h : Tree.Ready source (.node .forInBinding span children)) (strict : Bool) :
    Decodes (forInTarget source strict span children) := by
  rcases h.shape with hshape | ⟨placeSpan, place, rfl⟩
  · simp only [Pattern.shape_kw_seq, Pattern.shape_token] at hshape
    obtain ⟨kwSpan, text, _, rfl, nameSpan, name, rfl⟩ := hshape
    simp only [forInTarget]
    exact (decodes_identifier _ _).map _
  · have hplace := h.child (t := .node .lhsExpression placeSpan place) List.mem_cons_self
    simp only [forInTarget]
    refine (hplace.expression .leftHand rfl strict).bind fun e => ?_
    split
    · exact .pure _
    · exact .throw (by simp)

theorem decodes_switchClauses {ts : List Tree}
    (h : ∀ t ∈ ts,
      (∃ p span children, t = .node p span children ∧ (p = .caseClause ∨ p = .defaultClause)) ∧
      t.Ready source) (strict hasDefault : Bool) :
    Decodes (switchClauses source strict hasDefault ts) := by
  induction ts generalizing hasDefault with
  | nil => simp only [switchClauses]; exact .pure _
  | cons t ts ih =>
    obtain ⟨⟨⟨p, span, children, rfl, hp⟩, hready⟩, hts⟩ := List.forall_mem_cons.mp h
    have hshape := hready.shape
    have hbody {body : List Tree} (hb : (Pattern.many Pattern.sourceElement).Shape body)
        (hmem : ∀ t ∈ body, t ∈ children) : Decodes (stmts source strict body) :=
      decodes_stmts (fun t ht =>
        ⟨Pattern.shape_sourceElements hb t ht, hready.child (hmem t ht)⟩) strict
    rcases hp with rfl | rfl
    · simp only [Phrase.pattern, Pattern.sequence, Pattern.shape_kw_seq, Pattern.shape_phrase_seq,
        Pattern.shape_mark_seq] at hshape
      obtain ⟨kwSpan, text, _, rfl, testSpan, test, body, rfl, hb⟩ := hshape
      have htest := hready.child (t := .node .expression testSpan test) (by simp)
      simp only [switchClauses]
      exact (htest.expression .expression rfl strict).bind fun _ =>
        (hbody hb (by simp +contextual)).bind fun _ =>
        (ih hts hasDefault).bind fun _ => .pure _
    · simp only [Phrase.pattern, Pattern.sequence, Pattern.shape_kw_seq, Pattern.shape_mark_seq]
        at hshape
      obtain ⟨kwSpan, text, body, rfl, hb⟩ := hshape
      simp only [switchClauses]
      split
      · exact .throw (by simp)
      · exact (hbody hb (by simp +contextual)).bind fun _ => (ih hts true).bind fun _ => .pure _

/-- The last part of a loop is its body. -/
theorem decodes_forLoop_body {body : Tree} (hbody : body.isStatement = true)
    (hready : body.Ready source) (strict : Bool) (span : Span) (init : ForInit)
    (test update : Option Expr) :
    Decodes (forLoop source strict span init test update [body]) := by
  cases body with
  | node p bodySpan children =>
    have hloop : forLoop source strict span init test update [.node p bodySpan children] =
        stmt source strict (.node p bodySpan children) >>= fun body =>
          pure (.for span init test update body) := by
      cases p <;> first | contradiction | simp only [forLoop]
    rw [hloop]
    exact (hready.statement hbody strict).bind fun _ => .pure _
  | leaf | finish => contradiction

theorem decodes_forLoop_update {body : Tree} (hbody : body.isStatement = true) {ts : List Tree}
    (hshape : ts = [] ∨ ∃ span children, ts = [.node .forUpdate span children])
    (hready : ∀ t ∈ ts ++ [body], t.Ready source) (strict : Bool) (span : Span) (init : ForInit)
    (test : Option Expr) : Decodes (forLoop source strict span init test none (ts ++ [body])) := by
  have hlast := decodes_forLoop_body hbody (hready body (by simp)) strict span init test
  rcases hshape with rfl | ⟨updateSpan, children, rfl⟩
  · exact hlast none
  · have hupdate := hready (.node .forUpdate updateSpan children) (by simp)
    obtain ⟨inner, parts, rfl⟩ := hupdate.shape
    simp only [List.cons_append, List.nil_append, forLoop]
    exact ((hupdate.child List.mem_cons_self).expression .expression rfl strict).bind fun e =>
      hlast (some e)

theorem decodes_forLoop_test {body : Tree} (hbody : body.isStatement = true) {ts us : List Tree}
    (htest : ts = [] ∨ ∃ span children, ts = [.node .forTest span children])
    (hupdate : us = [] ∨ ∃ span children, us = [.node .forUpdate span children])
    (hready : ∀ t ∈ ts ++ (us ++ [body]), t.Ready source) (strict : Bool) (span : Span)
    (init : ForInit) :
    Decodes (forLoop source strict span init none none (ts ++ (us ++ [body]))) := by
  have hlast := decodes_forLoop_update hbody hupdate (fun t ht => hready t (by simp_all))
      strict span init
  rcases htest with rfl | ⟨testSpan, children, rfl⟩
  · exact hlast none
  · have htest := hready (.node .forTest testSpan children) (by simp)
    obtain ⟨inner, parts, rfl⟩ := htest.shape
    simp only [List.cons_append, List.nil_append, forLoop]
    exact ((htest.child List.mem_cons_self).expression .expression rfl strict).bind fun e =>
      hlast (some e)

theorem decodes_forLoop {body : Tree} (hbody : body.isStatement = true) {is ts us : List Tree}
    (hinit : is = [] ∨ ∃ span children, is = [.node .forInit span children])
    (htest : ts = [] ∨ ∃ span children, ts = [.node .forTest span children])
    (hupdate : us = [] ∨ ∃ span children, us = [.node .forUpdate span children])
    (hready : ∀ t ∈ is ++ (ts ++ (us ++ [body])), t.Ready source) (strict : Bool) (span : Span) :
    Decodes (forLoop source strict span .nothing none none (is ++ (ts ++ (us ++ [body])))) := by
  have hlast := decodes_forLoop_test hbody htest hupdate
      (fun t ht => hready t (by simp_all)) strict span
  rcases hinit with rfl | ⟨initSpan, children, rfl⟩
  · exact hlast .nothing
  · have hinit := hready (.node .forInit initSpan children) (by simp)
    rcases hinit.shape with h | ⟨inner, parts, rfl⟩
    · simp only [Pattern.shape_kw_seq, Pattern.shape_phrase] at h
      obtain ⟨kwSpan, text, _, rfl, listSpan, ds, rfl⟩ := h
      simp only [List.cons_append, List.nil_append, forLoop]
      exact (decodes_variableDeclarationList
        (hinit.child (t := .node .variableDeclarationList listSpan ds) (by simp)) strict).bind
        fun ds => hlast (.declaration initSpan ds)
    · simp only [List.cons_append, List.nil_append, forLoop]
      exact ((hinit.child List.mem_cons_self).expression .expression rfl strict).bind fun e =>
        hlast (.expression e)

/-! ### Statements -/

theorem decodes_inner {children parts : List Tree} {span : Span}
    (hready : ∀ t ∈ children, t.Ready source) (hmem : .node .expression span parts ∈ children)
    (strict : Bool) :
    Decodes (expr source .expression strict (.node .expression span parts)) :=
  (hready _ hmem).expression .expression rfl strict

theorem decodes_ifStatement {span : Span} {children : List Tree}
    (hkeywords : Tree.hasKeywords .ifStatement children = true)
    (hshape : (Phrase.pattern .ifStatement).Shape children)
    (hready : ∀ t ∈ children, t.Ready source) (strict : Bool) :
    Decodes (stmt source strict (.node .ifStatement span children)) := by
  simp only [Phrase.pattern, Pattern.sequence, Pattern.condition, List.cons_append, List.nil_append,
    Pattern.shape_kw_seq, Pattern.shape_mark_seq, Pattern.shape_phrase_seq] at hshape
  obtain ⟨kwSpan, text, _, rfl, testSpan, test, _, rfl, l, m, rfl, hl, hm⟩ := hshape
  obtain ⟨consequent, rfl, hcons⟩ := Pattern.shape_statement hl
  have htest := hready (.node .expression testSpan test) (by simp)
  have hconsequent := (hready consequent (by simp)).statement hcons strict
  rcases hm with rfl | hm
  · simp only [List.cons_append, List.nil_append] at hkeywords ⊢
    unfold stmt
    rw [if_pos hkeywords]
    exact (htest.expression .expression rfl strict).bind fun _ => hconsequent.bind fun _ => .pure _
  · simp only [Pattern.shape_kw_seq] at hm
    obtain ⟨elseSpan, elseText, _, rfl, hm⟩ := hm
    obtain ⟨alternate, rfl, halt⟩ := Pattern.shape_statement hm
    simp only [List.cons_append, List.nil_append] at hkeywords ⊢
    unfold stmt
    rw [if_pos hkeywords]
    exact (htest.expression .expression rfl strict).bind fun _ => hconsequent.bind fun _ =>
      ((hready alternate (by simp)).statement halt strict).bind fun _ => .pure _

theorem decodes_doWhileStatement {span : Span} {children : List Tree}
    (hkeywords : Tree.hasKeywords .doWhileStatement children = true)
    (hshape : (Phrase.pattern .doWhileStatement).Shape children)
    (hready : ∀ t ∈ children, t.Ready source) (strict : Bool) :
    Decodes (stmt source strict (.node .doWhileStatement span children)) := by
  simp only [Phrase.pattern, Pattern.sequence, Pattern.condition, List.cons_append, List.nil_append,
    Pattern.shape_kw_seq] at hshape
  obtain ⟨kwSpan, text, _, rfl, l, m, rfl, hl, hm⟩ := hshape
  obtain ⟨body, rfl, hbody⟩ := Pattern.shape_statement hl
  simp only [Pattern.shape_kw_seq, Pattern.shape_mark_seq, Pattern.shape_phrase_seq] at hm
  obtain ⟨whileSpan, whileText, _, rfl, testSpan, test, _, rfl, hend⟩ := hm
  obtain rfl := hend.elim id id
  simp only [List.cons_append, List.nil_append] at hkeywords ⊢
  unfold stmt
  rw [if_pos hkeywords]
  exact ((hready body (by simp)).statement hbody strict).bind fun _ =>
    (decodes_inner hready (by simp) strict).bind fun _ => .pure _

theorem decodes_whileStatement {span : Span} {children : List Tree}
    (hkeywords : Tree.hasKeywords .whileStatement children = true)
    (hshape : (Phrase.pattern .whileStatement).Shape children)
    (hready : ∀ t ∈ children, t.Ready source) (strict : Bool) :
    Decodes (stmt source strict (.node .whileStatement span children)) := by
  simp only [Phrase.pattern, Pattern.sequence, Pattern.condition, List.cons_append, List.nil_append,
    Pattern.shape_kw_seq, Pattern.shape_mark_seq, Pattern.shape_phrase_seq] at hshape
  obtain ⟨kwSpan, text, _, rfl, testSpan, test, _, rfl, hm⟩ := hshape
  obtain ⟨body, rfl, hbody⟩ := Pattern.shape_statement hm
  unfold stmt
  rw [if_pos hkeywords]
  exact (decodes_inner hready (by simp) strict).bind fun _ =>
    ((hready body (by simp)).statement hbody strict).bind fun _ => .pure _

theorem decodes_forInStatement {span : Span} {children : List Tree}
    (hkeywords : Tree.hasKeywords .forInStatement children = true)
    (hshape : (Phrase.pattern .forInStatement).Shape children)
    (hready : ∀ t ∈ children, t.Ready source) (strict : Bool) :
    Decodes (stmt source strict (.node .forInStatement span children)) := by
  simp only [Phrase.pattern, Pattern.sequence, Pattern.shape_kw_seq, Pattern.shape_mark_seq,
    Pattern.shape_phrase_seq] at hshape
  obtain ⟨kwSpan, text, _, rfl, bindingSpan, binding, _, rfl, inSpan, inText, _, rfl,
      rightSpan, right, _,
    rfl, hm⟩ := hshape
  obtain ⟨body, rfl, hbody⟩ := Pattern.shape_statement hm
  unfold stmt
  rw [if_pos hkeywords]
  exact (decodes_forInTarget (hready (.node .forInBinding bindingSpan binding) (by simp))
    strict).bind fun _ => (decodes_inner hready (by simp) strict).bind
    fun _ => ((hready body (by simp)).statement hbody strict).bind fun _ => .pure _

theorem decodes_forStatement {span : Span} {children : List Tree}
    (hkeywords : Tree.hasKeywords .forStatement children = true)
    (hshape : (Phrase.pattern .forStatement).Shape children)
    (hready : ∀ t ∈ children, t.Ready source) (strict : Bool) :
    Decodes (stmt source strict (.node .forStatement span children)) := by
  simp only [Phrase.pattern, Pattern.sequence, Pattern.shape_kw_seq, Pattern.shape_mark_seq]
    at hshape
  obtain ⟨kwSpan, text, _, rfl, is, _, rfl, hinit, hshape⟩ := hshape
  rw [Pattern.shape_mark_seq] at hshape
  obtain ⟨ts, _, rfl, htest, hshape⟩ := hshape
  rw [Pattern.shape_mark_seq] at hshape
  obtain ⟨us, _, rfl, hupdate, hshape⟩ := hshape
  rw [Pattern.shape_mark_seq] at hshape
  obtain ⟨body, rfl, hbody⟩ := Pattern.shape_statement hshape
  unfold stmt
  rw [if_pos hkeywords]
  exact decodes_forLoop hbody hinit htest hupdate (fun t ht => hready t (by simp_all)) strict span

theorem decodes_switchStatement {span : Span} {children : List Tree}
    (hkeywords : Tree.hasKeywords .switchStatement children = true)
    (hshape : (Phrase.pattern .switchStatement).Shape children)
    (hready : ∀ t ∈ children, t.Ready source) (strict : Bool) :
    Decodes (stmt source strict (.node .switchStatement span children)) := by
  simp only [Phrase.pattern, Pattern.sequence, Pattern.condition, List.cons_append, List.nil_append,
    Pattern.shape_kw_seq, Pattern.shape_mark_seq, Pattern.shape_phrase_seq] at hshape
  obtain ⟨kwSpan, text, _, rfl, valueSpan, value, _, rfl, l, _, rfl, hl, rfl⟩ := hshape
  have hclauses := Pattern.shape_many (P := fun t => ∃ p span children,
    t = .node p span children ∧ (p = .caseClause ∨ p = .defaultClause)) (fun ts hts => by
      rcases hts with ⟨span, children, rfl⟩ | ⟨span, children, rfl⟩
      · exact ⟨_, rfl, _, span, children, rfl, .inl rfl⟩
      · exact ⟨_, rfl, _, span, children, rfl, .inr rfl⟩) hl
  simp only [List.append_nil] at hready hkeywords ⊢
  unfold stmt
  rw [if_pos hkeywords]
  exact (decodes_inner hready (by simp) strict).bind fun _ =>
    (decodes_switchClauses (fun t ht => ⟨hclauses t ht, hready t (by simp [ht])⟩) strict false).bind
      fun _ => .pure _

theorem decodes_tryStatement {span : Span} {children : List Tree}
    (hkeywords : Tree.hasKeywords .tryStatement children = true)
    (hshape : (Phrase.pattern .tryStatement).Shape children)
    (hready : ∀ t ∈ children, t.Ready source) (strict : Bool) :
    Decodes (stmt source strict (.node .tryStatement span children)) := by
  simp only [Phrase.pattern, Pattern.sequence, Pattern.shape_kw_seq, Pattern.shape_phrase_seq]
    at hshape
  obtain ⟨kwSpan, text, _, rfl, blockSpan, body, _, rfl, hshape⟩ := hshape
  have hblock := hready (.node .block blockSpan body) (by simp)
  have hbody := decodes_blockBody hblock.shape (fun _ => hblock.child) strict
  rcases hshape with h | ⟨finallySpan, finallyParts, rfl⟩
  · simp only [Pattern.shape_phrase_seq] at h
    obtain ⟨catchSpan, catchParts, _, rfl, rfl | ⟨finallySpan, finallyParts, rfl⟩⟩ := h
    · unfold stmt
      rw [if_pos hkeywords]
      exact hbody.bind fun _ => (decodes_catchClause
        (hready (.node .catchClause catchSpan catchParts) (by simp)) strict).bind fun _ => .pure _
    · obtain ⟨keyword, finalSpan, finalBody, rfl, hfinal⟩ :=
        shape_finallyClause (hready (.node .finallyClause finallySpan finallyParts) (by simp))
      unfold stmt
      rw [if_pos hkeywords]
      exact hbody.bind fun _ => (decodes_catchClause
        (hready (.node .catchClause catchSpan catchParts) (by simp)) strict).bind fun _ =>
          (hfinal strict).bind fun _ => .pure _
  · obtain ⟨keyword, finalSpan, finalBody, rfl, hfinal⟩ :=
      shape_finallyClause (hready (.node .finallyClause finallySpan finallyParts) (by simp))
    unfold stmt
    rw [if_pos hkeywords]
    exact hbody.bind fun _ => (hfinal strict).bind fun _ => .pure _

theorem decodes_stmt_node {p : Phrase} (hp : p.isStatement = true) {span : Span}
    {children : List Tree} (hshape : p.pattern.Shape children)
    (hready : ∀ t ∈ children, t.Ready source) (strict : Bool) :
    Decodes (stmt source strict (.node p span children)) := by
  have hkeywords := Tree.hasKeywords_of_shape hshape fun t ht => (hready t ht).parsed
  cases p
  case functionDeclaration =>
    unfold stmt
    rw [if_pos hkeywords]
    simp only [Phrase.pattern, Pattern.sequence, Pattern.shape_kw_seq] at hshape
    obtain ⟨kwSpan, text, _, rfl, name, rest, rfl, hname, hrest⟩ := hshape
    exact (decodes_func hready (.inr hname) hrest strict false span).map _
  case block =>
    unfold stmt
    rw [if_pos hkeywords]
    exact (decodes_blockBody hshape hready strict).bind fun _ => .pure _
  case variableStatement =>
    simp only [Phrase.pattern, Pattern.sequence, Pattern.shape_kw_seq, Pattern.shape_phrase_seq]
      at hshape
    obtain ⟨kwSpan, text, _, rfl, listSpan, ds, _, rfl, hend⟩ := hshape
    obtain rfl := Pattern.shape_statementEnd hend
    unfold stmt
    rw [if_pos hkeywords]
    exact (decodes_variableDeclarationList
      (hready (.node .variableDeclarationList listSpan ds) (by simp))
      strict).bind fun _ => .pure _
  case emptyStatement =>
    unfold stmt
    rw [if_pos hkeywords]
    exact .pure _
  case debuggerStatement =>
    unfold stmt
    rw [if_pos hkeywords]
    exact .pure _
  case expressionStatement =>
    obtain ⟨_, m, rfl, rfl, hshape⟩ := hshape
    simp only [Pattern.sequence, Pattern.shape_phrase_seq] at hshape
    obtain ⟨inner, parts, _, rfl, hend⟩ := hshape
    obtain rfl := Pattern.shape_statementEnd hend
    simp only [List.nil_append] at hkeywords ⊢
    unfold stmt
    rw [if_pos hkeywords]
    exact (decodes_inner hready (by simp) strict).bind
      fun _ => .pure _
  case ifStatement => exact decodes_ifStatement hkeywords hshape hready strict
  case doWhileStatement => exact decodes_doWhileStatement hkeywords hshape hready strict
  case whileStatement => exact decodes_whileStatement hkeywords hshape hready strict
  case forStatement => exact decodes_forStatement hkeywords hshape hready strict
  case forInStatement => exact decodes_forInStatement hkeywords hshape hready strict
  case continueStatement | breakStatement =>
    simp only [Phrase.pattern, Pattern.sequence, Pattern.shape_kw_seq, Pattern.shape_optional_seq,
      Pattern.shape_token_seq] at hshape
    obtain ⟨kwSpan, text, _, rfl, hend | ⟨labelSpan, label, _, rfl, hend⟩⟩ := hshape <;>
      obtain rfl := Pattern.shape_statementEnd hend <;> unfold stmt <;> rw [if_pos hkeywords] <;>
      exact .pure _
  case returnStatement =>
    simp only [Phrase.pattern, Pattern.sequence, Pattern.shape_kw_seq, Pattern.shape_optional_seq,
      Pattern.shape_phrase_seq] at hshape
    obtain ⟨kwSpan, text, _, rfl, hend | ⟨inner, parts, _, rfl, hend⟩⟩ := hshape <;>
      obtain rfl := Pattern.shape_statementEnd hend <;> unfold stmt <;> rw [if_pos hkeywords]
    · exact .pure _
    · exact (decodes_inner hready (by simp) strict).bind fun _ => .pure _
  case withStatement =>
    simp only [Phrase.pattern, Pattern.sequence, Pattern.condition, List.cons_append,
      List.nil_append,
      Pattern.shape_kw_seq, Pattern.shape_mark_seq, Pattern.shape_phrase_seq] at hshape
    obtain ⟨kwSpan, text, _, rfl, objectSpan, object, _, rfl, hm⟩ := hshape
    obtain ⟨body, rfl, hbody⟩ := Pattern.shape_statement hm
    unfold stmt
    rw [if_pos hkeywords]
    exact (decodes_inner hready (by simp) strict).bind fun _ =>
      ((hready body (by simp)).statement hbody strict).bind fun _ =>
        decodes_nextNode.bind fun _ => .pure _
  case switchStatement => exact decodes_switchStatement hkeywords hshape hready strict
  case throwStatement =>
    simp only [Phrase.pattern, Pattern.sequence, Pattern.shape_kw_seq, Pattern.shape_phrase_seq]
      at hshape
    obtain ⟨kwSpan, text, _, rfl, inner, parts, _, rfl, hend⟩ := hshape
    obtain rfl := Pattern.shape_statementEnd hend
    unfold stmt
    rw [if_pos hkeywords]
    exact (decodes_inner hready (by simp) strict).bind fun _ => .pure _
  case tryStatement => exact decodes_tryStatement hkeywords hshape hready strict
  case labelledStatement =>
    simp only [Phrase.pattern, Pattern.sequence, Pattern.shape_token_seq, Pattern.shape_mark_seq]
      at hshape
    obtain ⟨labelSpan, label, _, rfl, hm⟩ := hshape
    obtain ⟨body, rfl, hbody⟩ := Pattern.shape_statement hm
    unfold stmt
    rw [if_pos hkeywords]
    exact ((hready body (by simp)).statement hbody strict).bind fun _ => .pure _
  all_goals cases hp

end Build

/-! ### Scripts -/

/-- All expressions and statements in a parsed tree can be built. -/
theorem Tree.Parsed.decoded {source : List Char} {t : Tree} (h : t.Parsed source) :
    t.Decoded source := by
  induction h with
  | leaf covers spells =>
    refine ⟨fun u hu position strict htakes => ?_, fun u hu hstmt strict => ?_⟩ <;> cases hu
    · obtain ⟨rfl, hexpr⟩ := htakes
      unfold Build.expr
      exact Build.decodes_leaf hexpr spells
    · contradiction
  | node covers shape parsed ih =>
    have hready := fun t ht => Tree.Ready.mk (parsed t ht) (ih t ht)
    refine ⟨fun u hu position strict htakes => ?_, fun u hu hstmt strict => ?_⟩
    · cases hu with
      | self => exact Build.decodes_expr_node htakes shape hready strict
      | child mem h => exact (ih _ mem).expr u h position strict htakes
    · cases hu with
      | self => exact Build.decodes_stmt_node hstmt shape hready strict
      | child mem h => exact (ih _ mem).stmt u h hstmt strict
  | finish covers =>
    refine ⟨fun u hu position strict htakes => ?_, fun u hu hstmt strict =>
      ?_⟩ <;> cases hu <;> contradiction

/-- Building the script of a parsed tree fails for no internal reason. -/
theorem Program.ofTree_ne_malformed {source : List Char} {span : Span} {children : List Tree}
    (h : Tree.Parsed source (.node .script span children)) (at_ : Span) :
    Program.ofTree source (.node .script span children) ≠ .error (.malformed at_) := by
  cases h with
  | node covers shape parsed =>
    simp only [Phrase.pattern, Pattern.sequence] at shape
    obtain ⟨_, _, rfl, rfl, elements, _, rfl, helements, offset, rfl⟩ := shape
    have hstatements := Pattern.shape_sourceElements helements
    have hfilter (f : Tree → Bool) (hf : ∀ p span children, f (.node p span children) = true) :
        elements.filter f = elements := by
      refine List.filter_eq_self.mpr fun t ht => ?_
      have := hstatements t ht
      cases t with
      | node p span children => exact hf p span children
      | leaf | finish => contradiction
    have hdecodes (strict : Bool) : Build.Decodes (Build.stmts source strict elements) :=
      Build.decodes_stmts (fun t ht => ⟨hstatements t ht, parsed t (by simp [ht]),
        (parsed t (by simp [ht])).decoded⟩) strict
    intro hmalformed
    simp only [Program.ofTree, List.nil_append, List.filter_append, List.filter_cons,
      Bool.false_eq_true, if_false, List.filter_nil, List.append_nil] at hmalformed
    rw [hfilter _ fun _ _ _ => rfl] at hmalformed
    split at hmalformed
    · cases hmalformed
    · next herror =>
      cases hmalformed
      exact hdecodes _ _ _ herror

end ScriptEngine
