import ScriptEngine.Proofs.Grammar.Spans
import ScriptEngine.Proofs.Script.Hoisting
import ScriptEngine.Proofs.Script.Parsing
import ScriptEngine.Proofs.Script.Collecting

/-!
# Ids

The ids in a script that was parsed are distinct and dense, and grow from the outside to the inside.
The functions that a body declares are listed in the order of the source, which is that of their
ids.

## Main definitions

* `Func.Successive` : functions that come one after the other, by their ids and in the source.
* `Hoists` : what a body declares is listed once, and in order.

## Main statements

* `Build.successive_stmts` : the declarations in statements come one after the other.
* `Program.ids_of_parse` : the ids in a script that was parsed.
-/

namespace ScriptEngine

/-! ### Functions one after the other -/

/-- Functions that come one after the other, with ids from one to another and ranges between two
offsets. -/
structure Func.Successive (k k' : FunctionId) (first last : Nat) (fs : List Func) : Prop where
  ids_le : k ≤ k'
  offsets_le : first ≤ last
  pairwise : fs.Pairwise fun f g => f.id < g.id ∧ f.span.stop ≤ g.span.start
  between : ∀ f ∈ fs, (k ≤ f.id ∧ f.id < k') ∧ first ≤ f.span.start ∧ f.span.stop ≤ last

namespace Func.Successive

variable {j k k' k'' j' : FunctionId} {a b c d : Nat} {fs fs' : List Func}

theorem nil (hk : k ≤ k') (hle : a ≤ b) : Successive k k' a b [] :=
  ⟨hk, hle, .nil, List.forall_mem_nil _⟩

theorem mono (h : Successive k k' b c fs) (hk : j ≤ k) (hk' : k' ≤ j') (hb : a ≤ b) (hc : c ≤ d) :
    Successive j j' a d fs where
  ids_le := hk.trans (h.ids_le.trans hk')
  offsets_le := hb.trans (h.offsets_le.trans hc)
  pairwise := h.pairwise
  between f hf := by
    obtain ⟨⟨hid, hid'⟩, hstart, hstop⟩ := h.between f hf
    exact ⟨⟨hk.trans hid, hid'.trans_le hk'⟩, hb.trans hstart, hstop.trans hc⟩

/-- Functions one after the other, and others after them. -/
theorem append (h : Successive k k' a b fs) (h' : Successive k' k'' c d fs') (hbc : b ≤ c) :
    Successive k k'' a d (fs ++ fs') where
  ids_le := h.ids_le.trans h'.ids_le
  offsets_le := h.offsets_le.trans (hbc.trans h'.offsets_le)
  pairwise := List.pairwise_append.mpr ⟨h.pairwise, h'.pairwise, fun f hf g hg =>
    ⟨(h.between f hf).1.2.trans_le (h'.between g hg).1.1,
      (h.between f hf).2.2.trans (hbc.trans (h'.between g hg).2.1)⟩⟩
  between := List.forall_mem_append.mpr
    ⟨(h.mono le_rfl h'.ids_le le_rfl (hbc.trans h'.offsets_le)).between,
      (h'.mono h.ids_le le_rfl (h.offsets_le.trans hbc) le_rfl).between⟩

end Func.Successive

/-! ### Declarations in statements -/

namespace Build

variable {source : List Char} {isExpression : Bool} {c c' : Counters}

/-- A function has one of the ids that were given out while it was built. -/
theorem id_of_func {strict : Bool} {span : Span} {ts : List Tree} {f : Func}
    (h : func source strict isExpression span ts c = .ok (f, c')) :
    c.function ≤ f.id ∧ f.id < c'.function := by
  obtain ⟨_, new, rfl, hl, hg⟩ := numbered_func source strict isExpression span ts h
  have hmem := (hg.perm hl).functions.mem_iff (a := f.id)
  simp only [Func.functionsOf_mark, List.map_cons, List.mem_cons, true_or, true_iff,
    List.mem_range'_1] at hmem
  exact ⟨hmem.1, hmem.2.trans_eq (Nat.add_sub_cancel' hg.function_le)⟩

theorem span_of_func (strict : Bool) (span : Span) (ts : List Tree) :
    Yields (func source strict isExpression span ts) fun f => f.span = span := by
  unfold func
  split
  · exact .step fun id => .step fun body => .pure rfl
  · exact .step fun id => .step fun name => .step fun body => .pure rfl
  · exact .step fun id => .step fun params => .step fun body => .pure rfl
  · exact .step fun id => .step fun name => .step fun params => .step fun body => .pure rfl
  · exact .throw _

/-- A function that is declared by itself. -/
theorem successive_func {strict : Bool} {span : Span} {ts : List Tree} {f : Func}
    (hle : span.start ≤ span.stop) (h : func source strict isExpression span ts c = .ok (f, c')) :
    Func.Successive c.function c'.function span.start span.stop [f] := by
  have hid := id_of_func h
  have hspan := span_of_func strict span ts h
  exact ⟨(hid.1.trans_lt hid.2).le, hle, List.pairwise_singleton _ f,
    List.forall_mem_singleton.mpr ⟨hid, by rw [hspan], by rw [hspan]⟩⟩

/-! ### Declarations in parse trees -/

end Build

/-- The parts of a tree stand one after the other, and the declarations in every statement in it
come one after the other in its range. -/
structure Tree.Listed (source : List Char) (t : Tree) : Prop where
  nested : t.Nested
  stmts : ∀ u, t.Contains u → ∀ {strict : Bool} {c c' : Counters} {s : Stmt},
    Build.stmt source strict u c = .ok (s, c') →
      Func.Successive c.function c'.function u.span.start u.span.stop s.functions

theorem Tree.Listed.child {source : List Char} {p : Phrase} {span : Span}
    {children : List Tree} {t : Tree} (h : Listed source (.node p span children))
    (ht : t ∈ children) : Listed source t :=
  ⟨h.nested.parts t ht, fun u hu => h.stmts u (.child ht hu)⟩

namespace Build

open ScriptEngine.Tree

variable {first last : Nat} {t : Tree} {ts : List Tree} {strict : Bool}

theorem successive_stmt (ht : t.Listed source) {s : Stmt}
    (h : stmt source strict t c = .ok (s, c')) :
    Func.Successive c.function c'.function t.span.start t.span.stop s.functions :=
  ht.stmts t (.self t) h

theorem successive_stmts (horder : InOrder first last ts) (hts : ∀ t ∈ ts, t.Listed source)
    {ss : List Stmt} (h : stmts source strict ts c = .ok (ss, c')) :
    Func.Successive c.function c'.function first last (bodyFunctions ss) := by
  induction ts generalizing first c ss with
  | nil =>
    simp only [stmts] at h
    cases h
    exact .nil le_rfl horder
  | cons t ts ih =>
    rw [List.forall_mem_cons] at hts
    simp only [stmts] at h
    obtain ⟨s, c₁, ht, h⟩ := bind_eq_ok h
    obtain ⟨ss, c₂, hss, h⟩ := bind_eq_ok h
    cases h
    exact ((successive_stmt hts.1 ht).append (ih horder.2.2 hts.2 hss) le_rfl).mono le_rfl le_rfl
      horder.1 le_rfl

/-- The declarations in the statements that are the parts of a phrase. -/
theorem successive_parts {p : Phrase} {span : Span} {children : List Tree}
    (ht : Tree.Listed source (.node p span children)) {ss : List Stmt}
    (h : stmts source strict children c = .ok (ss, c')) :
    Func.Successive c.function c'.function span.start span.stop (bodyFunctions ss) :=
  successive_stmts ht.nested.order (fun _ => ht.child) h

theorem successive_block (ht : t.Listed source) {b : Block}
    (h : block source strict t c = .ok (b, c')) :
    Func.Successive c.function c'.function t.span.start t.span.stop b.functions := by
  unfold block at h
  split at h
  · obtain ⟨body, c₁, hbody, h⟩ := bind_eq_ok h
    cases h
    exact successive_parts ht hbody
  · cases h

theorem successive_finallyClause {span : Span} {keyword finalizer : Tree}
    (ht : Tree.Listed source (.node .finallyClause span [keyword, finalizer])) {b : Block}
    (h : block source strict finalizer c = .ok (b, c')) :
    Func.Successive c.function c'.function span.start span.stop b.functions := by
  have hin := ht.nested.order.of_mem (t := finalizer) (by simp)
  exact (successive_block (ht.child (by simp)) h).mono le_rfl le_rfl hin.1 hin.2

theorem successive_catchClause (ht : t.Listed source) {span : Span} {param : Identifier} {b : Block}
    (h : catchClause source strict t c = .ok (.mk span param b, c')) :
    Func.Successive c.function c'.function t.span.start t.span.stop b.functions := by
  unfold catchClause at h
  split at h
  · rename_i body
    obtain ⟨_, c₁, hname, h⟩ := bind_eq_ok h
    obtain ⟨_, c₂, hbody, h⟩ := bind_eq_ok h
    cases h
    have hk := (numbered_identifier _ _).function_le hname
    have hin := ht.nested.order.of_mem (t := body) (by simp)
    exact (successive_block (ht.child (by simp)) hbody).mono hk le_rfl hin.1 hin.2
  · cases h

theorem successive_switchClauses {hasDefault : Bool} :
    ∀ {ts : List Tree} {first : Nat} {c : Counters}
    {cs : List SwitchClause}, InOrder first last ts → (∀ t ∈ ts, t.Listed source) →
      switchClauses source strict hasDefault ts c = .ok (cs, c') →
        Func.Successive c.function c'.function first last (clausesFunctions cs) := by
  intro ts first c cs horder hts h
  unfold switchClauses at h
  split at h
  · cases h
    exact .nil le_rfl horder
  · rename_i test body rest
    rw [List.forall_mem_cons] at hts
    obtain ⟨_, c₁, htest, h⟩ := bind_eq_ok h
    obtain ⟨_, c₂, hbody, h⟩ := bind_eq_ok h
    obtain ⟨_, c₃, hrest, h⟩ := bind_eq_ok h
    cases h
    have hk := (numbered_expr source _ strict test).function_le htest
    have hclause := hts.1.nested.order
    have hbody := successive_stmts hclause.2.2.2.2 (fun t ht => hts.1.child (by simp [ht])) hbody
    have hstart : first ≤ test.span.stop :=
      horder.1.trans (hclause.1.trans (hclause.2.1.trans (hclause.2.2.1.trans hclause.2.2.2.1)))
    exact (hbody.append (successive_switchClauses horder.2.2 hts.2 hrest) le_rfl).mono hk le_rfl
      hstart le_rfl
  · rename_i keyword body rest
    rw [List.forall_mem_cons] at hts
    split at h
    · cases h
    · obtain ⟨_, c₁, hbody, h⟩ := bind_eq_ok h
      obtain ⟨_, c₂, hrest, h⟩ := bind_eq_ok h
      cases h
      have hclause := hts.1.nested.order
      have hbody := successive_stmts hclause.2.2 (fun t ht => hts.1.child (by simp [ht])) hbody
      have hstart : first ≤ keyword.span.stop := horder.1.trans (hclause.1.trans hclause.2.1)
      exact (hbody.append (successive_switchClauses horder.2.2 hts.2 hrest) le_rfl).mono le_rfl
        le_rfl hstart le_rfl
  · cases h
termination_by ts => ts.length
decreasing_by all_goals simp [‹ts = _›]

/-- The parts of the head of a `for` loop declare nothing. -/
theorem successive_forLoop {span : Span} : ∀ {ts : List Tree} {first : Nat} {init : ForInit}
    {test update : Option Expr} {c : Counters} {s : Stmt},
    InOrder first last ts → (∀ t ∈ ts, t.Listed source) →
      forLoop source strict span init test update ts c = .ok (s, c') →
        Func.Successive c.function c'.function first last s.functions := by
  intro ts first init test update c s horder hts h
  unfold forLoop at h
  split at h
  · rename_i ds rest
    obtain ⟨_, c₁, hds, h⟩ := bind_eq_ok h
    have hk := (numbered_declarators source strict ds).function_le hds
    exact (successive_forLoop horder.2.2 (List.forall_mem_cons.mp hts).2 h).mono hk le_rfl
      (horder.1.trans horder.2.1) le_rfl
  · rename_i e rest
    obtain ⟨_, c₁, he, h⟩ := bind_eq_ok h
    have hk := (numbered_expr source _ strict e).function_le he
    exact (successive_forLoop horder.2.2 (List.forall_mem_cons.mp hts).2 h).mono hk le_rfl
      (horder.1.trans horder.2.1) le_rfl
  · rename_i e rest
    obtain ⟨_, c₁, he, h⟩ := bind_eq_ok h
    have hk := (numbered_expr source _ strict e).function_le he
    exact (successive_forLoop horder.2.2 (List.forall_mem_cons.mp hts).2 h).mono hk le_rfl
      (horder.1.trans horder.2.1) le_rfl
  · rename_i e rest
    obtain ⟨_, c₁, he, h⟩ := bind_eq_ok h
    have hk := (numbered_expr source _ strict e).function_le he
    exact (successive_forLoop horder.2.2 (List.forall_mem_cons.mp hts).2 h).mono hk le_rfl
      (horder.1.trans horder.2.1) le_rfl
  · obtain ⟨_, c₁, hbody, h⟩ := bind_eq_ok h
    cases h
    exact (successive_stmt (hts _ List.mem_cons_self) hbody).mono le_rfl le_rfl horder.1 horder.2.2
  · cases h
termination_by ts => ts.length
decreasing_by all_goals simp [‹ts = _›]

/-! ### Statements with several parts that declare -/

section Parts

variable {keyword : Tree} {c₁ c₂ : Counters}

theorem successive_alternatives {test consequent keyword' alternate : Tree} {s s' : Stmt}
    (horder : InOrder first last [keyword, test, consequent, keyword', alternate])
    (hparts : ∀ t ∈ [keyword, test, consequent, keyword', alternate], t.Listed source)
    (hs : stmt source strict consequent c = .ok (s, c₁))
    (hs' : stmt source strict alternate c₁ = .ok (s', c')) :
    Func.Successive c.function c'.function first last (s.functions ++ s'.functions) := by
  simp only [List.forall_mem_cons, InOrder] at hparts horder
  have hconsequent := successive_stmt hparts.2.2.1 hs
  have halternate := successive_stmt hparts.2.2.2.2.1 hs'
  exact (hconsequent.append halternate (by omega)).mono le_rfl le_rfl (by omega) (by omega)

variable {body : List Tree} {bodySpan : Span} {ss : List Stmt}

theorem successive_tryFinally {finallySpan : Span} {keyword' finalizer : Tree} {b : Block}
    (horder : InOrder first last
      [keyword, .node .block bodySpan body, .node .finallyClause finallySpan [keyword', finalizer]])
    (hparts : ∀ t ∈ [keyword, .node .block bodySpan body,
      .node .finallyClause finallySpan [keyword', finalizer]], t.Listed source)
    (hbody : stmts source strict body c = .ok (ss, c₁))
    (hfinalizer : block source strict finalizer c₁ = .ok (b, c')) :
    Func.Successive c.function c'.function first last (bodyFunctions ss ++ b.functions) := by
  simp only [List.forall_mem_cons, InOrder, span_node] at hparts horder
  have hblock := successive_parts hparts.2.1 hbody
  have hfinal := successive_finallyClause hparts.2.2.1 hfinalizer
  exact (hblock.append hfinal (by omega)).mono le_rfl le_rfl (by omega) (by omega)

theorem successive_tryCatch {handler : Tree} {at_ : Span} {param : Identifier} {b : Block}
    (horder : InOrder first last [keyword, .node .block bodySpan body, handler])
    (hparts : ∀ t ∈ [keyword, .node .block bodySpan body, handler], t.Listed source)
    (hbody : stmts source strict body c = .ok (ss, c₁))
    (hhandler : catchClause source strict handler c₁ = .ok (.mk at_ param b, c')) :
    Func.Successive c.function c'.function first last (bodyFunctions ss ++ b.functions) := by
  simp only [List.forall_mem_cons, InOrder, span_node] at hparts horder
  have hblock := successive_parts hparts.2.1 hbody
  have hhandler := successive_catchClause hparts.2.2.1 hhandler
  exact (hblock.append hhandler (by omega)).mono le_rfl le_rfl (by omega) (by omega)

theorem successive_tryCatchFinally {handler : Tree} {at_ finallySpan : Span} {param : Identifier}
    {keyword' finalizer : Tree} {b b' : Block}
    (horder : InOrder first last [keyword, .node .block bodySpan body, handler,
      .node .finallyClause finallySpan [keyword', finalizer]])
    (hparts : ∀ t ∈ [keyword, .node .block bodySpan body, handler,
      .node .finallyClause finallySpan [keyword', finalizer]], t.Listed source)
    (hbody : stmts source strict body c = .ok (ss, c₁))
    (hhandler : catchClause source strict handler c₁ = .ok (.mk at_ param b, c₂))
    (hfinalizer : block source strict finalizer c₂ = .ok (b', c')) :
    Func.Successive c.function c'.function first last
      (bodyFunctions ss ++ b.functions ++ b'.functions) := by
  simp only [List.forall_mem_cons, InOrder, span_node] at hparts horder
  have hblock := successive_parts hparts.2.1 hbody
  have hhandler := successive_catchClause hparts.2.2.1 hhandler
  have hfinal := successive_finallyClause hparts.2.2.2.1 hfinalizer
  exact ((hblock.append hhandler (by omega)).append hfinal (by omega)).mono le_rfl le_rfl (by omega)
    (by omega)

end Parts

/-- The declarations in a statement of which the parts are known. -/
theorem successive_stmt_node {p : Phrase} {span : Span} {children : List Tree}
    (hn : Tree.Nested (.node p span children)) (hparts : ∀ t ∈ children, t.Listed source) {s : Stmt}
    (h : stmt source strict (.node p span children) c = .ok (s, c')) :
    Func.Successive c.function c'.function span.start span.stop s.functions := by
  have hle := hn.order.le
  have horder := hn.order
  have hk := (numbered_stmt source strict _).function_le h
  -- A statement that declares what one of its parts does, built between two states of the counters.
  have part (t : Tree) {c₁ c₂ : Counters} {s s' : Stmt} (ht : t ∈ children)
      (h : stmt source strict t c₁ = .ok (s', c₂)) (hk : c.function ≤ c₁.function)
      (hk' : c₂.function ≤ c'.function) (hs : s.functions = s'.functions) :
      Func.Successive c.function c'.function span.start span.stop s.functions :=
    hs ▸ (successive_stmt (hparts t ht) h).mono hk hk' (horder.of_mem ht).1 (horder.of_mem ht).2
  unfold stmt at h
  replace h := ok_of_guarded h
  split at h
  -- A function declaration, a block, and statements without statements in them.
  case h_1 =>
    rw [map_eq_pure_bind] at h
    obtain ⟨f, c₁, hf, h⟩ := bind_eq_ok h
    cases h
    exact successive_func hle hf
  case h_2 =>
    obtain ⟨body, c₁, hbody, h⟩ := bind_eq_ok h
    cases h
    exact successive_stmts horder hparts hbody
  case h_3 | h_6 | h_18 | h_21 =>
    obtain ⟨_, _, _, h⟩ := bind_eq_ok h
    cases h
    exact .nil hk hle
  case h_4 | h_5 | h_13 | h_14 | h_15 | h_16 | h_17 =>
    cases h
    exact .nil hk hle
  -- Branches.
  case h_7 test consequent =>
    obtain ⟨_, c₁, htest, h⟩ := bind_eq_ok h
    obtain ⟨_, c₂, hconsequent, h⟩ := bind_eq_ok h
    cases h
    exact part consequent (by simp) hconsequent
      ((numbered_expr source _ strict test).function_le htest) le_rfl rfl
  case h_8 test consequent _ alternate =>
    obtain ⟨_, c₁, htest, h⟩ := bind_eq_ok h
    obtain ⟨_, c₂, hconsequent, h⟩ := bind_eq_ok h
    obtain ⟨_, c₃, halternate, h⟩ := bind_eq_ok h
    cases h
    have hk := (numbered_expr source _ strict test).function_le htest
    exact (successive_alternatives horder hparts hconsequent halternate).mono hk le_rfl
      le_rfl le_rfl
  case h_20 discriminant clauses =>
    obtain ⟨_, c₁, hdiscriminant, h⟩ := bind_eq_ok h
    obtain ⟨_, c₂, hclauses, h⟩ := bind_eq_ok h
    cases h
    have hk := (numbered_expr source _ strict discriminant).function_le hdiscriminant
    have hclauses :=
      successive_switchClauses horder.2.2.2.2 (fun t ht => hparts t (by simp [ht])) hclauses
    simp only [InOrder] at horder
    exact hclauses.mono hk le_rfl (by omega) le_rfl
  -- Loops.
  case h_9 body _ test =>
    obtain ⟨_, c₁, hbody, h⟩ := bind_eq_ok h
    obtain ⟨_, c₂, htest, h⟩ := bind_eq_ok h
    cases h
    exact part body (by simp) hbody le_rfl
      ((numbered_expr source _ strict test).function_le htest) rfl
  case h_10 test body =>
    obtain ⟨_, c₁, htest, h⟩ := bind_eq_ok h
    obtain ⟨_, c₂, hbody, h⟩ := bind_eq_ok h
    cases h
    exact part body (by simp) hbody
      ((numbered_expr source _ strict test).function_le htest) le_rfl rfl
  case h_11 =>
    exact successive_forLoop (horder.2.2.of_le (horder.1.trans horder.2.1))
      (List.forall_mem_cons.mp hparts).2 h
  case h_12 bindingSpan binding _ right body =>
    obtain ⟨_, c₁, hbinding, h⟩ := bind_eq_ok h
    obtain ⟨_, c₂, hright, h⟩ := bind_eq_ok h
    obtain ⟨_, c₃, hbody, h⟩ := bind_eq_ok h
    cases h
    have hk := ((numbered_forInTarget source strict bindingSpan binding).function_le hbinding).trans
      ((numbered_expr source _ strict right).function_le hright)
    exact part body (by simp) hbody hk le_rfl rfl
  -- Statements around others.
  case h_19 object body =>
    obtain ⟨_, c₁, hobject, h⟩ := bind_eq_ok h
    obtain ⟨_, c₂, hbody, h⟩ := bind_eq_ok h
    obtain ⟨id, c₃, hid, h⟩ := bind_eq_ok h
    cases h
    exact part body (by simp) hbody ((numbered_expr source _ strict object).function_le hobject)
      (numbered_nextNode.function_le hid) rfl
  case h_22 =>
    obtain ⟨_, c₁, hbody, h⟩ := bind_eq_ok h
    obtain ⟨_, c₂, hfinalizer, h⟩ := bind_eq_ok h
    cases h
    rw [Stmt.functions, List.append_nil]
    exact successive_tryFinally horder hparts hbody hfinalizer
  case h_23 =>
    obtain ⟨_, c₁, hbody, h⟩ := bind_eq_ok h
    obtain ⟨⟨_, _, _⟩, c₂, hhandler, h⟩ := bind_eq_ok h
    cases h
    rw [Stmt.functions, List.append_nil]
    exact successive_tryCatch horder hparts hbody hhandler
  case h_24 =>
    obtain ⟨_, c₁, hbody, h⟩ := bind_eq_ok h
    obtain ⟨⟨_, _, _⟩, c₂, hhandler, h⟩ := bind_eq_ok h
    obtain ⟨_, c₃, hfinalizer, h⟩ := bind_eq_ok h
    cases h
    exact successive_tryCatchFinally horder hparts hbody hhandler hfinalizer
  case h_25 body =>
    obtain ⟨_, c₁, hbody, h⟩ := bind_eq_ok h
    cases h
    exact part body (by simp) hbody le_rfl le_rfl rfl
  case h_26 => cases h

end Build

/-- The declarations in every statement in a nested tree come one after the other. -/
theorem Tree.Nested.listed (source : List Char) {t : Tree} (h : t.Nested) : t.Listed source := by
  induction h with
  | leaf token span text =>
    refine ⟨.leaf token span text, fun u hu strict c c' s hrun => ?_⟩
    cases hu
    unfold Build.stmt at hrun
    cases hrun
  | finish offset =>
    refine ⟨.finish offset, fun u hu strict c c' s hrun => ?_⟩
    cases hu
    unfold Build.stmt at hrun
    cases hrun
  | node order parts ih =>
    refine ⟨.node order parts, fun u hu strict c c' s hrun => ?_⟩
    cases hu with
    | self => exact Build.successive_stmt_node (.node order parts) ih hrun
    | child mem hu => exact (ih _ mem).stmts u hu hrun

/-! ### Scripts -/

/-- What a body declares is what is declared in its statements, outside of the functions inside it;
it is listed in the order of the source, which is that of the ids. -/
structure Hoists (body : List Stmt) : Prop where
  mem_iff : ∀ f, f ∈ bodyFunctions body ↔ ∃ s ∈ body, (Stmt.function f).Within s
  ordered : (bodyFunctions body).Pairwise fun f g => f.id < g.id ∧ f.span.stop ≤ g.span.start

namespace Build

variable {source : List Char} {strict : Bool} {ts : List Tree} {c c' : Counters} {ss : List Stmt}

theorem hoists_stmts {first last : Nat} (horder : Tree.InOrder first last ts)
    (hts : ∀ t ∈ ts, t.Nested) (h : stmts source strict ts c = .ok (ss, c')) : Hoists ss :=
  ⟨fun _ => mem_bodyFunctions,
    (successive_stmts horder (fun t ht => (hts t ht).listed source) h).pairwise⟩

theorem id_of_stmts (h : stmts source strict ts c = .ok (ss, c')) {f : Func}
    (hf : f ∈ stmtFuncs ss) :
    c.function ≤ f.id := by
  obtain ⟨_, new, rfl, hl, hg⟩ := numbered_stmts source strict ts h
  have hmem := (hg.perm hl).functions.mem_iff (a := f.id)
  rw [stmtFuncs_ids, List.mem_range'_1] at hmem
  exact (hmem.mp (List.mem_map_of_mem hf)).1

/-- Every function declares what stands in it, and has a smaller id than those inside it. -/
theorem collects_hoists (source : List Char) : Collects source Tree.Nested fun _ fs =>
    ∀ f ∈ fs, Hoists f.body ∧ ∀ g ∈ f.inside, f.id < g.id where
  part := Tree.Nested.parts
  nil := List.forall_mem_nil _
  append h h' := List.forall_mem_append.mpr ⟨h, h'⟩
  function {_ f _ _ _ _} hbody hlt hrun _ hinside := by
    refine List.forall_mem_cons.mpr
      ⟨⟨hoists_stmts hbody.order hbody.parts hrun, fun g hg => ?_⟩, hinside⟩
    obtain ⟨⟩ := f
    exact hlt.trans_le (id_of_stmts hrun hg)

end Build

/-- In a script that was parsed the ids of identifiers and `with` statements are distinct and dense,
and so are those of functions; a function has a larger id than what is around it, and every body
lists the functions that are declared in it, in the order of the source. -/
theorem Program.ids_of_parse {source : String} {p : Program} (h : Program.parse source = .ok p) :
    (Mark.nodesOf p.marks).Perm (List.range p.nodeCount) ∧
    0 < p.functionCount ∧ (p.funcs.map Func.id).Perm (List.range' 1 (p.functionCount - 1)) ∧
    (∀ f ∈ p.funcs, 0 < f.id ∧ ∀ g ∈ f.inside, f.id < g.id) ∧
    Hoists p.body ∧ ∀ f ∈ p.funcs, Hoists f.body := by
  have hnumbered := Program.wellNumbered_of_parse h
  have hids : (p.funcs.map Func.id).Perm (List.range' 1 (p.functionCount - 1)) :=
    stmtFuncs_ids p.body ▸ hnumbered.functions
  have hpos (f : Func) (hf : f ∈ p.funcs) : 0 < f.id :=
    (List.mem_range'_1.mp (hids.mem_iff.mp (List.mem_map_of_mem hf))).1
  obtain ⟨span, children, next, furthest, elements, counters, hscript, hsub, -, -, hrun⟩ :=
    Program.built_of_parse h
  have hnested := Parse.nested_of_script hscript
  have helements : ∀ t ∈ elements, t.Nested := fun t ht => hnested.parts t (hsub.subset ht)
  have hfuncs := Build.collects_stmts (Build.collects_hoists source.toList) p.strict elements
      helements hrun
  exact ⟨hnumbered.nodes, hnumbered.functionCount_pos, hids,
    fun f hf => ⟨hpos f hf, (hfuncs f hf).2⟩,
    Build.hoists_stmts (hnested.order.sublist hsub) helements hrun, fun f hf => (hfuncs f hf).1⟩

theorem Program.ids_of_parse_nested : ∃ p,
    Program.parse
      "function a() \x7bfunction b() \x7b\x7d\x7d with (o) var c = function (x) \x7b\x7d" = .ok p ∧
    (Mark.nodesOf p.marks).Perm (List.range p.nodeCount) ∧
    0 < p.functionCount ∧ (p.funcs.map Func.id).Perm (List.range' 1 (p.functionCount - 1)) ∧
    (∀ f ∈ p.funcs, 0 < f.id ∧ ∀ g ∈ f.inside, f.id < g.id) ∧
    Hoists p.body ∧ (∀ f ∈ p.funcs, Hoists f.body) ∧ p.nodeCount = 6 ∧ p.functionCount = 4 := by
  obtain ⟨p, hp, hcounts⟩ := Program.exists_parse
    "function a() \x7bfunction b() \x7b\x7d\x7d with (o) var c = function (x) \x7b\x7d"
    (fun p => p.nodeCount == 6 && p.functionCount == 4) (by decide +kernel)
  simp only [Bool.and_eq_true, beq_iff_eq] at hcounts
  obtain ⟨hnodes, hpos, hids, hinside, hbody, hbodies⟩ := ids_of_parse hp
  exact ⟨p, hp, hnodes, hpos, hids, hinside, hbody, hbodies, hcounts⟩

end ScriptEngine
