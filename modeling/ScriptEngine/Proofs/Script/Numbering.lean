import ScriptEngine.Proofs.Script.Outline

/-!
# Numbering

Building a script from a parse tree gives out node ids and function ids one after the other, so that
the numbers in its outline are distinct and dense, and a function has a smaller number than the
functions inside it.

## Main definitions

* `Build.Gives` : the ids that were given out between two states of the counters.
* `Build.Numbered` : a computation gives out exactly the ids in the outline of its result.
* `Program.WellNumbered` : the ids of a script are distinct, dense and ordered.

## Main statements

* `Program.wellNumbered_of_parse` : parsing numbers a script well.
-/

namespace ScriptEngine

namespace Build

/-- The ids between two states of the counters are those of an outline. -/
structure Gives (c c' : Counters) (l : List Mark) : Prop where
  node_le : c.node ≤ c'.node
  function_le : c.function ≤ c'.function
  nodes : (Mark.nodesOf l).Perm (List.range' c.node (c'.node - c.node))
  functions : (Mark.functionsOf l).Perm (List.range' c.function (c'.function - c.function))
  ordered : Mark.AllOrdered l

namespace Gives

variable {c c' c'' : Counters} {l l' : List Mark}

theorem refl (c : Counters) : Gives c c [] where
  node_le := le_rfl
  function_le := le_rfl
  nodes := by simp [Mark.nodesOf]
  functions := by simp [Mark.functionsOf]
  ordered := trivial

theorem range'_append_sub {a b d : Nat} (hab : a ≤ b) (hbd : b ≤ d) :
    List.range' a (b - a) ++ List.range' b (d - b) = List.range' a (d - a) := by
  have h := List.range'_append_1 (s := a) (m := b - a) (n := d - b)
  rw [Nat.add_sub_cancel' hab] at h
  rw [h]
  congr 1
  omega

theorem trans (h : Gives c c' l) (h' : Gives c' c'' l') : Gives c c'' (l ++ l') where
  node_le := h.node_le.trans h'.node_le
  function_le := h.function_le.trans h'.function_le
  nodes := by
    rw [Mark.nodesOf_append, ← range'_append_sub h.node_le h'.node_le]
    exact h.nodes.append h'.nodes
  functions := by
    rw [Mark.functionsOf_append, ← range'_append_sub h.function_le h'.function_le]
    exact h.functions.append h'.functions
  ordered := (Mark.allOrdered_append l l').2 ⟨h.ordered, h'.ordered⟩

theorem perm (h : Gives c c' l) (hp : l'.Perm l) : Gives c c' l' where
  node_le := h.node_le
  function_le := h.function_le
  nodes := by
    rw [Mark.nodesOf_eq_flatMap]
    exact (hp.flatMap_right _).trans (Mark.nodesOf_eq_flatMap l ▸ h.nodes)
  functions := by
    rw [Mark.functionsOf_eq_flatMap]
    exact (hp.flatMap_right _).trans (Mark.functionsOf_eq_flatMap l ▸ h.functions)
  ordered := (Mark.allOrdered_iff l').2 fun m hm =>
    (Mark.allOrdered_iff l).1 h.ordered m (hp.mem_iff.1 hm)

/-- A function declaration is no expression. -/
theorem declaration (c : Counters) : Gives c c [.declaration false] where
  node_le := le_rfl
  function_le := le_rfl
  nodes := by simp [Mark.nodesOf, Mark.nodes]
  functions := by simp [Mark.functionsOf, Mark.functions]
  ordered := ⟨rfl, trivial⟩

/-- A function takes its id before what is inside it. -/
theorem function (h : Gives ⟨c.node, c.function + 1⟩ c' l) :
    Gives c c' [.function c.function l] where
  node_le := h.node_le
  function_le := Nat.le_of_succ_le h.function_le
  nodes := by simpa [Mark.nodesOf, Mark.nodes] using h.nodes
  functions := by
    have hsub : c'.function - c.function = (c'.function - (c.function + 1)) + 1 := by
      rw [Nat.sub_add_eq, Nat.sub_add_cancel (Nat.sub_pos_of_lt h.function_le)]
    simpa [Mark.functionsOf, Mark.functions, hsub, List.range'_succ] using h.functions
  ordered := by
    refine ⟨⟨fun k hk => ?_, h.ordered⟩, trivial⟩
    have := (h.functions.mem_iff.1 hk)
    rw [List.mem_range'_1] at this
    exact this.1

end Gives

/-- A computation gives out ids beyond those of an outline `pre`; all of them together are an
outline that fits the result. -/
def After {α : Type} (pre : List Mark) (x : Build α) (Q : α → List Mark → Prop) : Prop :=
  ∀ ⦃c a c'⦄, x c = .ok (a, c') → ∃ l new, Q a l ∧ l.Perm (pre ++ new) ∧ Gives c c' new

/-- A computation gives out exactly the ids in the outline of its result. -/
def Numbered {α : Type} (x : Build α) (marks : α → List Mark) : Prop :=
  After [] x fun a l => l = marks a

section

variable {α β : Type} {pre : List Mark} {x : Build α} {Q : α → List Mark → Prop}
  {marks : α → List Mark}

theorem bind_eq_ok {f : α → Build β} {c : Counters} {r : β × Counters}
    (h : (x >>= f) c = .ok r) : ∃ a c', x c = .ok (a, c') ∧ f a c' = .ok r := by
  change (x c >>= fun p => f p.1 p.2) = .ok r at h
  cases hx : x c with
  | error e => rw [hx] at h; cases h
  | ok p => exact ⟨p.1, p.2, rfl, by rw [hx] at h; exact h⟩

/-- What succeeds is admitted at its place. -/
theorem ok_of_guarded {b : Bool} {span : Span} {c : Counters} {r : α × Counters}
    (h : (if b then x else Build.malformed span) c = .ok r) : x c = .ok r := by
  cases b with
  | false => cases h
  | true => exact h

theorem After.bind {f : α → Build β} {Q' : β → List Mark → Prop} (hx : After pre x Q)
    (hf : ∀ a l, Q a l → After l (f a) Q') : After pre (x >>= f) Q' := by
  intro c b c'' h
  obtain ⟨a, c', hxa, hfb⟩ := bind_eq_ok h
  obtain ⟨l, new, hQ, hl, hg⟩ := hx hxa
  obtain ⟨l', new', hQ', hl', hg'⟩ := hf a l hQ hfb
  refine ⟨l', new ++ new', hQ', ?_, hg.trans hg'⟩
  calc l'.Perm (l ++ new') := hl'
    _ |>.Perm ((pre ++ new) ++ new') := hl.append_right new'
    _ |>.Perm (pre ++ (new ++ new')) := by rw [List.append_assoc]

theorem After.pure {a : α} {l : List Mark} (hQ : Q a l) (hl : l.Perm pre) :
    After pre (pure a : Build α) Q := by
  intro c a' c' h
  cases h
  exact ⟨l, [], hQ, by simpa using hl, .refl c⟩

theorem After.throw (e : BuildError) : After pre (throw e : Build α) Q := by
  intro c a c' h
  cases h

theorem Numbered.from (h : Numbered x marks) (pre : List Mark) :
    After pre x fun a l => l = pre ++ marks a := by
  intro c a c' hx
  obtain ⟨l, new, rfl, hl, hg⟩ := h hx
  exact ⟨pre ++ marks a, new, rfl, hl.append_left pre, hg⟩

theorem Numbered.malformed (span : Span) : Numbered (malformed span : Build α) marks :=
  After.throw _

/-- What is built of a tree that is admitted at its place. -/
theorem Numbered.guarded {b : Bool} (h : Numbered x marks) (span : Span) :
    Numbered (if b then x else Build.malformed span) marks := by
  cases b with
  | false => exact .malformed span
  | true => exact h

theorem numbered_orMalformed (span : Span) (o : Option α) :
    Numbered (orMalformed span o) fun _ => [] := by
  cases o with
  | none => exact .malformed span
  | some a => exact .pure rfl .rfl

theorem Numbered.function_le (h : Numbered x marks) {c c' : Counters} {a : α}
    (hx : x c = .ok (a, c')) :
    c.function ≤ c'.function := by
  obtain ⟨l, new, -, -, hg⟩ := h hx
  exact hg.function_le

theorem Numbered.map {f : α → β} {marks' : β → List Mark} (h : Numbered x marks)
    (hf : ∀ a, marks' (f a) = marks a) : Numbered (f <$> x) marks' := by
  rw [map_eq_pure_bind]
  refine After.bind h fun a l hl => .pure rfl ?_
  rw [hf a, hl]

theorem numbered_nextNode : Numbered nextNode fun id => [.node id] := by
  rintro ⟨node, function⟩ a c' h
  cases h
  refine ⟨_, [.node node], rfl, .rfl, ?_, le_rfl, ?_, ?_, ⟨trivial, trivial⟩⟩
  · exact Nat.le_succ node
  · simp [Mark.nodesOf, Mark.nodes]
  · simp [Mark.functionsOf, Mark.functions]

theorem lt_of_nextFunction {c c' : Counters} {id : FunctionId} (h : nextFunction c = .ok (id, c')) :
    id < c'.function := by
  cases h
  exact Nat.lt_succ_self _

theorem numbered_identifier (span : Span) (text : List Char) :
    Numbered (identifier span text) fun i => [i.mark] :=
  After.bind numbered_nextNode fun _ _ hl => .pure rfl (by rw [hl]; exact .rfl)

theorem After.perm {pre' : List Mark} (h : After pre x Q) (hp : pre.Perm pre') :
    After pre' x Q := by
  intro c a c' hx
  obtain ⟨l, new, hQ, hl, hg⟩ := h hx
  exact ⟨l, new, hQ, hl.trans (hp.append_right new), hg⟩

/-- A function takes its id first. -/
theorem After.function {k : FunctionId → Build Func}
    (h : ∀ id, After [] (k id) fun f l => f.mark = .function id l) :
    Numbered (nextFunction >>= k) fun f => [f.mark] := by
  intro c f c' hf
  obtain ⟨id, c₁, hid, hk⟩ := bind_eq_ok hf
  cases hid
  obtain ⟨l, new, hmark, hl, hg⟩ := h _ hk
  refine ⟨_, _, rfl, .rfl, ?_⟩
  rw [hmark]
  exact (hg.perm hl).function

/-- A function that is no expression can be declared. -/
theorem Numbered.declared {x : Build Func} (h : Numbered x fun f => [f.mark])
    (hx : ∀ c f c', x c = .ok (f, c') → f.isExpression = false) :
    Numbered x fun f => [.declaration f.isExpression, f.mark] := by
  intro c f c' hf
  obtain ⟨l, new, rfl, hl, hg⟩ := h hf
  refine ⟨_, .declaration false :: new, rfl, ?_, (Gives.declaration c).trans hg⟩
  simp only [hx c f c' hf]
  exact hl.cons _

end

/-! ### Parts that are no recursion -/

theorem numbered_identifiers : ∀ ts : List Tree,
    Numbered (identifiers ts) fun is => is.map Identifier.mark
  | [] => .pure rfl .rfl
  | t :: ts => by
    unfold identifiers
    split
    · exact .pure rfl .rfl
    · rename_i span text rest heq
      cases heq
      refine (numbered_identifier span text).bind fun i l hl => ?_
      refine ((numbered_identifiers ts).from l).bind fun is l' hl' => .pure rfl ?_
      simp [hl', hl]
    · exact .malformed _

theorem numbered_leaf (token : Token) (span : Span) (text : List Char) :
    Numbered (leaf token span text) Expr.marks := by
  unfold leaf
  split
  case h_2 => exact (numbered_identifier span text).map fun i => by simp
  case h_5 =>
    exact (numbered_orMalformed span _).bind fun n l hl => .pure rfl (by simp [hl])
  case h_8 => exact .malformed span
  all_goals exact .pure rfl (by simp)

theorem numbered_propertyKey (t : Tree) : Numbered (propertyKey t) fun _ => [] := by
  unfold propertyKey
  split
  case h_2 => exact (numbered_orMalformed _ _).map fun _ => rfl
  case h_4 => exact .malformed _
  all_goals exact .pure rfl .rfl

theorem after_joined (left : Expr) (operator : Token) (span : Span) (text : List Char)
    (right : Expr) : After (left.marks ++ right.marks) (joined left operator span text right)
      fun e l => l = e.marks := by
  unfold joined
  dsimp only
  split
  · exact .pure rfl (by simp)
  · exact .pure rfl (by simp)
  · exact ((numbered_orMalformed span _).from _).bind fun op l hl =>
      .pure rfl (by simp [hl])

theorem marks_of_target? {e : Expr} {t : Target} (h : e.target? = some t) :
    t.marks = e.marks := by
  unfold Expr.target? at h
  split at h <;> cases h <;> simp

theorem elementMarks_append : ∀ l l' : List (Option Expr),
    elementMarks (l ++ l') = elementMarks l ++ elementMarks l'
  | [], _ => by simp
  | none :: l, l' => by simp [elementMarks_append l l']
  | some e :: l, l' => by simp [elementMarks_append l l']

theorem elementMarks_dropTrailingHole (l : List (Option Expr)) :
    elementMarks (dropTrailingHole l) = elementMarks l := by
  unfold dropTrailingHole
  split
  · rename_i h
    obtain ⟨ys, rfl⟩ := List.getLast?_eq_some_iff.1 h
    simp [elementMarks_append]
  · rfl

theorem perm_rotate (l l₁ l₂ : List Mark) : (l ++ (l₁ ++ l₂)).Perm (l₁ ++ (l₂ ++ l)) := by
  rw [← List.append_assoc l₁]
  exact List.perm_append_comm

/-! ### The recursion -/

variable (source : List Char)

theorem isExpression_of_func {strict isExpression : Bool} {span : Span} {ts : List Tree}
    (c : Counters) (f : Func) (c' : Counters)
    (h : func source strict isExpression span ts c = .ok (f, c')) :
    f.isExpression = isExpression := by
  unfold func at h
  split at h
  · obtain ⟨id, c₁, -, h⟩ := bind_eq_ok h
    obtain ⟨body, c₂, -, h⟩ := bind_eq_ok h
    cases h
    rfl
  · obtain ⟨id, c₁, -, h⟩ := bind_eq_ok h
    obtain ⟨name, c₂, -, h⟩ := bind_eq_ok h
    obtain ⟨body, c₃, -, h⟩ := bind_eq_ok h
    cases h
    rfl
  · obtain ⟨id, c₁, -, h⟩ := bind_eq_ok h
    obtain ⟨params, c₂, -, h⟩ := bind_eq_ok h
    obtain ⟨body, c₃, -, h⟩ := bind_eq_ok h
    cases h
    rfl
  · obtain ⟨id, c₁, -, h⟩ := bind_eq_ok h
    obtain ⟨name, c₂, -, h⟩ := bind_eq_ok h
    obtain ⟨params, c₃, -, h⟩ := bind_eq_ok h
    obtain ⟨body, c₄, -, h⟩ := bind_eq_ok h
    cases h
    rfl
  · cases h

mutual

theorem numbered_expr (position : Position) (strict : Bool) : ∀ t : Tree,
    Numbered (expr source position strict t) Expr.marks
  | .leaf token span text => by
    unfold expr
    exact (numbered_leaf token span text).guarded span
  | .finish offset => by
    unfold expr
    exact .malformed _
  | .node phrase span children => by
    unfold expr
    refine Numbered.guarded ?_ span
    split
    · exact numbered_expr _ strict _
    · exact (numbered_exprs strict _).bind fun es l hl => .pure rfl (by simp [hl])
    · exact numbered_expr _ strict _
    · rename_i left _ opSpan op right
      refine (numbered_expr _ strict left).bind fun place l hl => ?_
      split
      · exact .throw _
      · rename_i target htarget
        refine ((numbered_orMalformed opSpan _).from l).bind fun op l₁ hl₁ => ?_
        refine ((numbered_expr _ strict right).from l₁).bind fun value l₂ hl₂ => .pure rfl ?_
        simp [marks_of_target? htarget, hl₂, hl₁, hl]
    · exact numbered_expr _ strict _
    · rename_i test consequent alternate
      refine (numbered_expr _ strict test).bind fun t l hl => ?_
      refine ((numbered_expr _ strict consequent).from l).bind fun c l₁ hl₁ => ?_
      refine ((numbered_expr _ strict alternate).from l₁).bind fun a l₂ hl₂ => .pure rfl ?_
      simp [hl₂, hl₁, hl]
    · exact numbered_expr _ strict _
    · rename_i opSpan op operand
      refine (numbered_expr _ strict operand).bind fun argument l hl => ?_
      split
      · split
        · exact .throw _
        · rename_i target htarget
          exact .pure rfl (by simp [marks_of_target? htarget, hl])
      · refine ((numbered_orMalformed opSpan _).from l).bind fun op l₁ hl₁ => .pure rfl ?_
        simp [hl₁, hl]
    · exact numbered_expr _ strict _
    · rename_i operand _ opSpan op
      refine (numbered_expr _ strict operand).bind fun argument l hl => ?_
      split
      · exact .throw _
      · rename_i target htarget
        refine ((numbered_orMalformed opSpan _).from l).bind fun op l₁ hl₁ => .pure rfl ?_
        simp [marks_of_target? htarget, hl₁, hl]
    · rename_i head suffixes
      refine (numbered_expr _ strict head).bind fun base l hl => ?_
      rw [hl]
      exact after_withSuffixes strict base suffixes
    · rename_i head suffixes
      refine (numbered_expr _ strict head).bind fun base l hl => ?_
      rw [hl]
      exact after_withSuffixes strict base suffixes
    · rename_i callee _ arguments
      refine (numbered_expr _ strict callee).bind fun f l hl => ?_
      refine ((numbered_exprs strict arguments).from l).bind fun es l₁ hl₁ => .pure rfl ?_
      simp [hl₁, hl]
    · rename_i callee
      refine (numbered_expr _ strict callee).bind fun f l hl => .pure rfl ?_
      simp [hl]
    · exact numbered_expr _ strict _
    · exact numbered_expr _ strict _
    · refine (numbered_arrayElements strict _).bind fun es l hl => .pure rfl ?_
      simp [elementMarks_dropTrailingHole, hl]
    · refine (numbered_objectProperties strict _).bind fun ps l hl => .pure rfl ?_
      simp [hl]
    · exact (numbered_func strict true span _).map fun f => by simp
    · rename_i first rest _ _ _ _ _ _ _ _ _ _ _ _ _ _ _ _ _ _ _
      refine Numbered.guarded ?_ span
      refine (numbered_expr _ strict first).bind fun left l hl => ?_
      rw [hl]
      exact after_chain strict left rest
    · exact .malformed span
termination_by t => sizeOf t
decreasing_by
  all_goals subst_vars; clear * -; simp only [Tree.node.sizeOf_spec, List.cons.sizeOf_spec]; omega

theorem numbered_exprs (strict : Bool) : ∀ ts : List Tree,
    Numbered (exprs source strict ts) exprMarks
  | [] => .pure rfl .rfl
  | t :: ts => by
    unfold exprs
    refine (numbered_expr _ strict t).bind fun e l hl => ?_
    refine ((numbered_exprs strict ts).from l).bind fun es l₁ hl₁ => .pure rfl ?_
    simp [hl₁, hl]
termination_by t => sizeOf t
decreasing_by
  all_goals clear * -; simp only [List.cons.sizeOf_spec]; omega

theorem after_chain (strict : Bool) (left : Expr) : ∀ ts : List Tree,
    After left.marks (chain source strict left ts) fun e l => l = e.marks := by
  intro ts
  unfold chain
  split
  · exact .pure rfl .rfl
  · rename_i operator span text operand rest
    refine ((numbered_expr _ strict operand).from _).bind fun right l hl => ?_
    rw [hl]
    refine (after_joined left operator span text right).bind fun both l₁ hl₁ => ?_
    rw [hl₁]
    exact after_chain strict both rest
  · exact .throw _
termination_by t => sizeOf t
decreasing_by
  all_goals subst_vars; clear * -; simp only [List.cons.sizeOf_spec]; omega

theorem after_withSuffixes (strict : Bool) (base : Expr) : ∀ ts : List Tree,
    After base.marks (withSuffixes source strict base ts) fun e l => l = e.marks := by
  intro ts
  unfold withSuffixes
  split
  · exact .pure rfl .rfl
  · rename_i span arguments rest
    refine ((numbered_exprs strict arguments).from _).bind fun es l hl => ?_
    have h := after_withSuffixes strict (.call (base.span.join span) base es) rest
    rwa [Expr.marks, ← hl] at h
  · rename_i span _ name rest
    have h := after_withSuffixes strict
      (.member (.named (base.span.join span) base (String.ofList name))) rest
    rwa [Expr.marks, Member.marks] at h
  · rename_i span property rest
    refine ((numbered_expr _ strict property).from _).bind fun p l hl => ?_
    have h := after_withSuffixes strict (.member (.computed (base.span.join span) base p)) rest
    rwa [Expr.marks, Member.marks, ← hl] at h
  · exact .throw _
termination_by t => sizeOf t
decreasing_by
  all_goals subst_vars; clear * -; simp only [Tree.node.sizeOf_spec, List.cons.sizeOf_spec]; omega

theorem numbered_arrayElements (strict : Bool) : ∀ ts : List Tree,
    Numbered (arrayElements source strict ts) elementMarks := by
  intro ts
  unfold arrayElements
  split
  · exact .pure rfl .rfl
  · rename_i rest
    refine (numbered_arrayElements strict rest).bind fun es l hl => .pure rfl ?_
    simp [hl]
  · rename_i element rest
    refine (numbered_expr _ strict element).bind fun e l hl => ?_
    refine ((numbered_arrayElements strict rest).from l).bind fun es l₁ hl₁ => .pure rfl ?_
    simp [hl₁, hl]
  · exact .malformed _
termination_by t => sizeOf t
decreasing_by
  all_goals subst_vars; clear * -; simp only [Tree.node.sizeOf_spec, List.cons.sizeOf_spec]; omega

theorem numbered_objectProperties (strict : Bool) : ∀ ts : List Tree,
    Numbered (objectProperties source strict ts) propertyMarks := by
  intro ts
  unfold objectProperties
  split
  · exact .pure rfl .rfl
  · rename_i key value rest
    refine (numbered_propertyKey key).bind fun k l hl => ?_
    refine ((numbered_expr _ strict value).from l).bind fun v l₁ hl₁ => ?_
    refine ((numbered_objectProperties strict rest).from l₁).bind fun ps l₂ hl₂ => .pure rfl ?_
    simp [hl₂, hl₁, hl]
  · exact .malformed _
termination_by t => sizeOf t
decreasing_by
  all_goals subst_vars; clear * -; simp only [Tree.node.sizeOf_spec, List.cons.sizeOf_spec]; omega

theorem numbered_func (strict isExpression : Bool) (span : Span) : ∀ ts : List Tree,
    Numbered (func source strict isExpression span ts) fun f => [f.mark] := by
  intro ts
  unfold func
  split
  · refine After.function fun id => ?_
    refine (numbered_stmts _ _).bind fun body l hl => .pure rfl ?_
    simp [hl]
  · rename_i nameSpan name bodySpan body
    refine After.function fun id => ?_
    refine (numbered_identifier nameSpan name).bind fun i l hl => ?_
    refine ((numbered_stmts _ _).from l).bind fun body l₁ hl₁ => .pure rfl ?_
    simp [hl₁, hl]
  · rename_i params bodySpan body
    refine After.function fun id => ?_
    refine (numbered_identifiers params).bind fun is l hl => ?_
    refine ((numbered_stmts _ _).from l).bind fun body l₁ hl₁ => .pure rfl ?_
    simp [hl₁, hl]
  · rename_i nameSpan name _ params bodySpan body
    refine After.function fun id => ?_
    refine (numbered_identifier nameSpan name).bind fun i l hl => ?_
    refine ((numbered_identifiers params).from l).bind fun is l₁ hl₁ => ?_
    refine ((numbered_stmts _ _).from l₁).bind fun body l₂ hl₂ => .pure rfl ?_
    simp [hl₂, hl₁, hl]
  · exact .malformed _
termination_by t => sizeOf t
decreasing_by
  all_goals subst_vars; clear * -; simp only [Tree.node.sizeOf_spec, List.cons.sizeOf_spec]; omega

theorem numbered_stmts (strict : Bool) : ∀ ts : List Tree,
    Numbered (stmts source strict ts) stmtMarks
  | [] => .pure rfl .rfl
  | t :: ts => by
    unfold stmts
    refine (numbered_stmt strict t).bind fun s l hl => ?_
    refine ((numbered_stmts strict ts).from l).bind fun rest l₁ hl₁ => .pure rfl ?_
    simp [hl₁, hl]
termination_by t => sizeOf t
decreasing_by
  all_goals clear * -; simp only [List.cons.sizeOf_spec]; omega

theorem numbered_declarators (strict : Bool) : ∀ ts : List Tree,
    Numbered (declarators source strict ts) declaratorMarks := by
  intro ts
  unfold declarators
  split
  · exact .pure rfl .rfl
  · rename_i nameSpan name rest
    refine (numbered_identifier nameSpan name).bind fun i l hl => ?_
    refine ((numbered_declarators strict rest).from l).bind fun ds l₁ hl₁ => .pure rfl ?_
    simp [hl₁, hl]
  · rename_i nameSpan name init rest
    refine (numbered_identifier nameSpan name).bind fun i l hl => ?_
    refine ((numbered_expr _ strict init).from l).bind fun e l₁ hl₁ => ?_
    refine ((numbered_declarators strict rest).from l₁).bind fun ds l₂ hl₂ => .pure rfl ?_
    simp [hl₂, hl₁, hl]
  · exact .malformed _
termination_by t => sizeOf t
decreasing_by
  all_goals subst_vars; clear * -; simp only [Tree.node.sizeOf_spec, List.cons.sizeOf_spec]; omega

theorem after_forLoop (strict : Bool) (span : Span) (init : ForInit) (test update : Option Expr) :
    ∀ ts : List Tree,
      After (init.marks ++ optionMarks test ++ optionMarks update)
        (forLoop source strict span init test update ts) fun s l => l = s.marks := by
  intro ts
  unfold forLoop
  split
  · rename_i initSpan _ _ ds rest
    refine ((numbered_declarators strict ds).from _).bind fun ds l hl => ?_
    refine (after_forLoop strict span (.declaration initSpan ds) _ _ rest).perm ?_
    simpa [hl] using perm_rotate (declaratorMarks ds) _ _
  · rename_i e rest
    refine ((numbered_expr _ strict e).from _).bind fun e l hl => ?_
    refine (after_forLoop strict span (.expression e) _ _ rest).perm ?_
    simpa [hl] using perm_rotate e.marks _ _
  · rename_i e rest
    refine ((numbered_expr _ strict e).from _).bind fun e l hl => ?_
    refine (after_forLoop strict span _ (some e) _ rest).perm ?_
    simpa [hl] using (List.perm_append_comm).append_left init.marks
  · rename_i e rest
    refine ((numbered_expr _ strict e).from _).bind fun e l hl => ?_
    refine (after_forLoop strict span _ _ (some e) rest).perm ?_
    simp [hl]
  · rename_i body _ _ _ _
    refine ((numbered_stmt strict body).from _).bind fun b l hl => .pure rfl ?_
    simp [hl]
  · exact .throw _
termination_by t => sizeOf t
decreasing_by
  all_goals subst_vars; clear * -; simp only [Tree.node.sizeOf_spec, List.cons.sizeOf_spec]; omega

theorem numbered_switchClauses (strict hasDefault : Bool) : ∀ ts : List Tree,
    Numbered (switchClauses source strict hasDefault ts) clauseMarks := by
  intro ts
  unfold switchClauses
  split
  · exact .pure rfl .rfl
  · rename_i test body rest
    refine (numbered_expr _ strict test).bind fun t l hl => ?_
    refine ((numbered_stmts strict body).from l).bind fun b l₁ hl₁ => ?_
    refine ((numbered_switchClauses strict hasDefault rest).from l₁).bind fun cs l₂ hl₂ =>
      .pure rfl ?_
    simp [hl₂, hl₁, hl]
  · split
    · exact .throw _
    · rename_i body rest _
      refine (numbered_stmts strict body).bind fun b l hl => ?_
      refine ((numbered_switchClauses strict true rest).from l).bind fun cs l₁ hl₁ => .pure rfl ?_
      simp [hl₁, hl]
  · exact .malformed _
termination_by t => sizeOf t
decreasing_by
  all_goals subst_vars; clear * -; simp only [Tree.node.sizeOf_spec, List.cons.sizeOf_spec]; omega

theorem numbered_stmt (strict : Bool) : ∀ t : Tree, Numbered (stmt source strict t) Stmt.marks
  | .leaf .. => by
    unfold stmt
    exact .malformed _
  | .finish _ => by
    unfold stmt
    exact .malformed _
  | .node phrase span children => by
    unfold stmt
    refine Numbered.guarded ?_ span
    split
    · exact ((numbered_func strict false span _).declared (isExpression_of_func source)).map
        fun f => by simp
    · exact (numbered_stmts strict _).bind fun b l hl =>
        .pure rfl (by simp [hl])
    · exact (numbered_declarators strict _).bind fun ds l hl =>
        .pure rfl (by simp [hl])
    · exact .pure rfl (by simp)
    · exact .pure rfl (by simp)
    · exact (numbered_expr _ strict _).bind fun e l hl => .pure rfl (by simp [hl])
    · rename_i test consequent
      refine (numbered_expr _ strict test).bind fun t l hl => ?_
      refine ((numbered_stmt strict consequent).from l).bind fun c l₁ hl₁ => .pure rfl ?_
      simp [hl₁, hl]
    · rename_i test consequent _ alternate
      refine (numbered_expr _ strict test).bind fun t l hl => ?_
      refine ((numbered_stmt strict consequent).from l).bind fun c l₁ hl₁ => ?_
      refine ((numbered_stmt strict alternate).from l₁).bind fun a l₂ hl₂ => .pure rfl ?_
      simp [hl₂, hl₁, hl]
    · rename_i body _ test
      refine (numbered_stmt strict body).bind fun b l hl => ?_
      refine ((numbered_expr _ strict test).from l).bind fun t l₁ hl₁ => .pure rfl ?_
      simp [hl₁, hl]
    · rename_i test body
      refine (numbered_expr _ strict test).bind fun t l hl => ?_
      refine ((numbered_stmt strict body).from l).bind fun b l₁ hl₁ => .pure rfl ?_
      simp [hl₁, hl]
    · exact after_forLoop strict span .nothing none none _
    · rename_i bindingSpan binding _ right body
      refine (numbered_forInTarget strict bindingSpan binding).bind fun t l hl => ?_
      refine ((numbered_expr _ strict right).from l).bind fun r l₁ hl₁ => ?_
      refine ((numbered_stmt strict body).from l₁).bind fun b l₂ hl₂ => .pure rfl ?_
      simp [hl₂, hl₁, hl]
    · exact .pure rfl (by simp)
    · exact .pure rfl (by simp)
    · exact .pure rfl (by simp)
    · exact .pure rfl (by simp)
    · exact .pure rfl (by simp)
    · exact (numbered_expr _ strict _).bind fun e l hl => .pure rfl (by simp [hl])
    · rename_i object body
      refine (numbered_expr _ strict object).bind fun o l hl => ?_
      refine ((numbered_stmt strict body).from l).bind fun b l₁ hl₁ => ?_
      refine (numbered_nextNode.from l₁).bind fun id l₂ hl₂ => .pure rfl ?_
      simp [hl₂, hl₁, hl]
    · rename_i discriminant clauses
      refine (numbered_expr _ strict discriminant).bind fun d l hl => ?_
      refine ((numbered_switchClauses strict false clauses).from l).bind fun cs l₁ hl₁ =>
        .pure rfl ?_
      simp [hl₁, hl]
    · exact (numbered_expr _ strict _).bind fun e l hl => .pure rfl (by simp [hl])
    · rename_i body _ _ finalizer
      refine (numbered_stmts strict body).bind fun b l hl => ?_
      refine ((numbered_block strict finalizer).from l).bind fun f l₁ hl₁ => .pure rfl ?_
      simp [hl₁, hl]
    · rename_i body handler _
      refine (numbered_stmts strict body).bind fun b l hl => ?_
      refine ((numbered_catchClause strict handler).from l).bind fun h l₁ hl₁ => .pure rfl ?_
      simp [hl₁, hl]
    · rename_i body handler _ _ finalizer
      refine (numbered_stmts strict body).bind fun b l hl => ?_
      refine ((numbered_catchClause strict handler).from l).bind fun h l₁ hl₁ => ?_
      refine ((numbered_block strict finalizer).from l₁).bind fun f l₂ hl₂ => .pure rfl ?_
      simp [hl₂, hl₁, hl]
    · exact (numbered_stmt strict _).bind fun b l hl => .pure rfl (by simp [hl])
    · exact .malformed _
termination_by t => sizeOf t
decreasing_by
  all_goals subst_vars; clear * -; simp only [Tree.node.sizeOf_spec, List.cons.sizeOf_spec]; omega

theorem numbered_forInTarget (strict : Bool) (span : Span) : ∀ ts : List Tree,
    Numbered (forInTarget source strict span ts) ForInTarget.marks := by
  intro ts
  unfold forInTarget
  split
  · exact (numbered_identifier _ _).map fun i => by simp
  · rename_i place
    refine (numbered_expr _ strict place).bind fun e l hl => ?_
    split
    · rename_i target htarget
      exact .pure rfl (by simp [marks_of_target? htarget, hl])
    · exact .throw _
  · exact .malformed _
termination_by t => sizeOf t
decreasing_by
  all_goals subst_vars; clear * -; simp only [List.cons.sizeOf_spec]; omega

theorem numbered_block (strict : Bool) : ∀ t : Tree,
    Numbered (block source strict t) Block.marks := by
  intro t
  unfold block
  split
  · exact (numbered_stmts strict _).bind fun b l hl => .pure rfl (by simp [hl])
  · exact .malformed _
termination_by t => sizeOf t
decreasing_by
  all_goals subst_vars; clear * -; simp only [Tree.node.sizeOf_spec]; omega

theorem numbered_catchClause (strict : Bool) : ∀ t : Tree,
    Numbered (catchClause source strict t) Handler.marks := by
  intro t
  unfold catchClause
  split
  · rename_i nameSpan name body
    refine (numbered_identifier nameSpan name).bind fun i l hl => ?_
    refine ((numbered_block strict body).from l).bind fun b l₁ hl₁ => .pure rfl ?_
    simp [hl₁, hl]
  · exact .malformed _
termination_by t => sizeOf t
decreasing_by
  all_goals subst_vars; clear * -; simp only [Tree.node.sizeOf_spec, List.cons.sizeOf_spec]; omega

end

end Build

/-- The ids in the outline of a script are distinct and dense, function zero being the script
itself, and a function has a smaller id than the functions inside it. -/
structure Program.WellNumbered (p : Program) : Prop where
  nodes : (Mark.nodesOf p.marks).Perm (List.range p.nodeCount)
  functions : (Mark.functionsOf p.marks).Perm (List.range' 1 (p.functionCount - 1))
  functionCount_pos : 0 < p.functionCount
  ordered : Mark.AllOrdered p.marks

theorem Program.wellNumbered_of_ofTree {source : List Char} {t : Tree} {p : Program}
    (h : Program.ofTree source t = .ok p) : p.WellNumbered := by
  unfold Program.ofTree at h
  split at h
  · dsimp only at h
    split at h
    · rename_i body counters hrun
      cases h
      obtain ⟨l, new, rfl, hl, hg⟩ := Build.numbered_stmts source _ _ hrun
      have hg := hg.perm hl
      refine ⟨?_, hg.functions, hg.function_le, hg.ordered⟩
      simpa only [List.range_eq_range', Nat.sub_zero, Program.marks] using hg.nodes
    · cases h
  · cases h

/-- Parsing numbers a script well. -/
theorem Program.wellNumbered_of_parse {source : String} {p : Program}
    (h : Program.parse source = .ok p) : p.WellNumbered := by
  unfold Program.parse at h
  dsimp only at h
  split at h
  · cases h
  · split at h
    · rename_i hp
      cases h
      exact wellNumbered_of_ofTree hp
    · cases h

end ScriptEngine
