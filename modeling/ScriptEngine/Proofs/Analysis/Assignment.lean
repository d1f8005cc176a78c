import ScriptEngine.Proofs.Analysis.Marking
import ScriptEngine.Proofs.Analysis.Records

/-!
# Definite assignment

A pass over a script meets the uses of a variable in the order of the source.  If the first one is a
write that is a statement of its own at the top of the body of the variable, then all reads come
after writes that always happen.  Otherwise the variable gets the type at the top, and keeps it.  So
the types that are inferred can be relied upon at every place of the script.

## Main definitions

* `Analysis.Private` : identifiers denote a variable in its own body only.
* `TypeSite.Placed` : the name at a site is resolved.
* `Infer.Assigns` : what a part of a pass does to a variable, and which reads of it come after
  writes.
* `TypeSite.Sound` : the types of variables can be relied upon at a site.

## Main statements

* `Infer.assigns_stmtList` : a pass over statements.
* `Program.sound_typeSites` : the sites of a script.
-/

namespace ScriptEngine

/-! ### Names of variables that no nested function uses -/

/-- The identifiers that denote a variable are in its own body. -/
def Analysis.Private (r : Analysis) (v : VariableId) : Prop :=
  ∀ (env : Environment) (i : Identifier), env.Valid r → i.Resolved r env → r.reference? i = some v →
    (r.var v).body = Resolve.current env

/-- A local variable that no nested function uses is denoted in its own body only. -/
theorem Analysis.Sound.private {r : Analysis} {v : VariableId} (hs : r.Sound)
    (hkind : (r.var v).kind = .local) (hv : v ∉ (r.body (r.var v).body).closedOver) :
    r.Private v := by
  rintro env i henv ⟨w, hw, target, outer, withs, hfind, hcaptured, hdenotes⟩ hi
  obtain rfl := Option.some.inj (hw.symm.trans hi)
  rcases hdenotes with ⟨-, rfl⟩ | ⟨-, hguards⟩
  · cases outer with
    | false => exact (((henv.of_find hs hfind).1 w false rfl).2.2.1 rfl).2
    | true =>
      refine absurd (hcaptured rfl ?_) hv
      unfold Variable.isCapturable
      rw [hkind]
  · rw [hguards.var] at hkind
    cases hkind

/-- The name at a site is resolved in an environment, and what is written there has a type. -/
def TypeSite.Placed (r : Analysis) (env : Environment) : TypeSite → Prop
  | .read _ i => i.Resolved r env
  | .write i t => i.Resolved r env ∧ t ≠ .unset
  | .caught i => (Mention.parameter i).Resolved r env
  | .held id => (Mention.holder id).Resolved r env
  | .declared i => (Mention.declared i).Resolved r env
  | .called _ => True

/-- A variable whose uses are to be followed through a pass: it is denoted in its own body only, and
the types of all variables are known in the end. -/
structure Analysis.Tracks (r a : Analysis) (v : VariableId) : Prop where
  same : r.SameScopes a
  own : r.Private v
  types : ∀ x ∈ a.vars, x.valueType ≠ .unset

namespace Analysis

variable (a : Analysis) (v : VariableId)

/-- A variable is read at none of some sites. -/
def Unread (sites : List TypeSite) : Prop :=
  ∀ W i, .read W i ∈ sites → a.reference? i ≠ some v

/-- A variable is read at some sites only after it was written. -/
def ReadWritten (sites : List TypeSite) : Prop :=
  ∀ W i, .read W i ∈ sites → a.reference? i = some v → v ∈ W

variable {a v} {sites sites' : List TypeSite}

theorem Unread.readWritten (h : a.Unread v sites) : a.ReadWritten v sites :=
  fun W i hmem hi => absurd hi (h W i hmem)

theorem Unread.append (h : a.Unread v sites) (h' : a.Unread v sites') :
    a.Unread v (sites ++ sites') :=
  fun W i hmem => (List.mem_append.mp hmem).elim (h W i) (h' W i)

theorem ReadWritten.append (h : a.ReadWritten v sites) (h' : a.ReadWritten v sites') :
    a.ReadWritten v (sites ++ sites') :=
  fun W i hmem => (List.mem_append.mp hmem).elim (h W i) (h' W i)

theorem unread_nil : a.Unread v [] :=
  fun _ _ hmem => absurd hmem List.not_mem_nil

end Analysis

/-! ### Types of expressions -/

theorem BinaryOp.resultType_ne_unset (op : BinaryOp) (s t : ValueType) :
    op.resultType s t ≠ .unset := by
  cases op <;> cases s <;> cases t <;> decide

theorem ValueType.join_ne_unset {s t : ValueType} (hs : s ≠ .unset) : s.join t ≠ .unset := by
  unfold join
  split
  · exact hs
  · nofun

section

variable {a : Analysis}

theorem Analysis.nameType_ne_unset (ha : ∀ x ∈ a.vars, x.valueType ≠ .unset) (i : Identifier) :
    a.nameType i ≠ .unset := by
  unfold nameType
  split
  · next x hx =>
    obtain ⟨v, -, hv⟩ := Option.bind_eq_some_iff.mp hx
    exact ha x (Array.mem_of_getElem? hv)
  · nofun

mutual

/-- Every expression has a type if every variable has one. -/
theorem Expr.type_ne_unset (ha : ∀ x ∈ a.vars, x.valueType ≠ .unset) : ∀ e : Expr, e.type a ≠ .unset
  | .literal _ value => by cases value <;> nofun
  | .identifier i => a.nameType_ne_unset ha i
  | .this _ | .array .. | .object .. | .function _ | .update .. | .call .. | .construct
    .. | .member _ => nofun
  | .unary _ op _ => by cases op <;> nofun
  | .binary _ op left right => op.resultType_ne_unset (left.type a) (right.type a)
  | .logical _ _ left _ => ValueType.join_ne_unset (left.type_ne_unset ha)
  | .assign _ .plain (.identifier _) value | .assign _ .plain (.member _) value =>
    value.type_ne_unset ha
  | .assign _ (.compound op) (.identifier i) value =>
    op.resultType_ne_unset (a.nameType i) (value.type a)
  | .assign _ (.compound op) (.member _) value => op.resultType_ne_unset .unknown (value.type a)
  | .conditional _ _ consequent _ => ValueType.join_ne_unset (consequent.type_ne_unset ha)
  | .sequence _ expressions => lastType_ne_unset ha expressions nofun
termination_by structural x => x

theorem lastType_ne_unset (ha : ∀ x ∈ a.vars, x.valueType ≠ .unset) :
    ∀ (es : List Expr) {last : ValueType},
    last ≠ .unset → lastType a last es ≠ .unset
  | [], _, h => h
  | e :: rest, _, _ => lastType_ne_unset ha rest (e.type_ne_unset ha)
termination_by structural x => x

end

end

namespace Infer

/-! ### Parts of a pass -/

section

variable (r a : Analysis) (v : VariableId)

/-- What a part of a pass over code of the body `here` does to the type of a variable, and which
reads of the variable at the sites of the code come after writes.  In front of the code the
variables in `W` were written, and after it those in `W'`. -/
structure Follows {α : Type} (here : FunctionId) (inside : List FunctionId) (W W' : Set VariableId)
    (sites : List TypeSite) (x : Infer α) : Prop where
  placed : ∀ site ∈ sites, ∃ env : Environment, env.Valid r ∧ site.Placed r env
  /-- Nothing happens to a variable of another body. -/
  outside : (r.var v).body ≠ here → (r.var v).body ∉ inside →
    a.Unread v sites ∧ ∀ s, (x s).2.types[v]? = s.types[v]?
  /-- What was written stays so. -/
  later : (r.var v).body = here → v ∈ W → v ∈ W' ∧ a.ReadWritten v sites
  unknown : ∀ s, s.types[v]? = some .unknown → (x s).2.types[v]? = some .unknown
  /-- The first use of the variable settles whether all reads come after writes. -/
  unset : ∀ s, s.types[v]? = some .unset →
    (x s).2.types[v]? = some .unknown ∨
    (x s).2.types[v]? = some .unset ∧ a.Unread v sites ∨
    a.ReadWritten v sites ∧ ((r.var v).body ∈ inside ∨ (r.var v).body = here ∧ v ∈ W')

/-- A part of a pass goes over code with some outline. -/
def Assigns {α : Type} (here : FunctionId) (ms : List Mark) (W W' : Set VariableId)
    (sites : List TypeSite) (x : Infer α) : Prop :=
  (here :: Mark.functionsOf ms).Nodup → Follows r a v here (Mark.functionsOf ms) W W' sites x

end

namespace Assigns

variable {r a : Analysis} {v : VariableId} {α β : Type} {here : FunctionId} {ms ms' : List Mark}
  {W W' W'' : Set VariableId} {sites sites' : List TypeSite} {x : Infer α} {f : α → Infer β}

theorem pure (t : α) : Assigns r a v here [] W W [] (pure t : Infer α) := fun _ =>
  { placed := nofun
    outside := fun _ _ => ⟨Analysis.unread_nil, fun _ => rfl⟩
    later := fun _ hv => ⟨hv, Analysis.unread_nil.readWritten⟩
    unknown := fun _ h => h
    unset := fun _ h => .inr (.inl ⟨h, Analysis.unread_nil⟩) }

/-- One part after the other. -/
theorem bind (hx : Assigns r a v here ms W W' sites x)
    (hf : ∀ t, Assigns r a v here ms' W' W'' sites' (f t)) :
    Assigns r a v here (ms ++ ms') W W'' (sites ++ sites') (x >>= f) := by
  intro hnodup
  unfold Assigns at hx hf
  rw [Mark.functionsOf_append] at hnodup ⊢
  have hx := hx (hnodup.sublist ((List.sublist_append_left _ _).cons_cons here))
  have hf t := hf t (hnodup.sublist ((List.sublist_append_right _ _).cons_cons here))
  -- a body that stands in the first part is neither the one around nor in the second part
  have hapart (h : (r.var v).body ∈ Mark.functionsOf ms) :
      (r.var v).body ≠ here ∧ (r.var v).body ∉ Mark.functionsOf ms' := by
    obtain ⟨hhere, htail⟩ := List.nodup_cons.mp hnodup
    refine ⟨fun heq => hhere (List.mem_append_left _ (heq ▸ h)), fun h' => ?_⟩
    exact (List.nodup_append.mp htail).2.2 _ h _ h' rfl
  have hf₀ := hf (x ⟨#[], []⟩).1
  refine
    { placed := List.forall_mem_append.mpr ⟨hx.placed, hf₀.placed⟩
      outside := fun hne hmem => ?_
      later := fun heq hv => ?_
      unknown := fun s h => (hf _).unknown _ (hx.unknown s h)
      unset := fun s h => ?_ }
  · rw [List.mem_append, not_or] at hmem
    obtain ⟨hunread, hsame⟩ := hx.outside hne hmem.1
    refine ⟨hunread.append (hf₀.outside hne hmem.2).1, fun s => ?_⟩
    exact (((hf (x s).1).outside hne hmem.2).2 (x s).2).trans (hsame s)
  · obtain ⟨hv', hreads⟩ := hx.later heq hv
    obtain ⟨hv'', hreads'⟩ := hf₀.later heq hv'
    exact ⟨hv'', hreads.append hreads'⟩
  · rcases hx.unset s h with hunknown | ⟨hunset, hunread⟩ | ⟨hreads, hinside | ⟨heq, hv'⟩⟩
    · exact .inl ((hf _).unknown _ hunknown)
    · rcases (hf (x s).1).unset _ hunset with hunknown | ⟨hunset', hunread'⟩ | ⟨hreads, hmem⟩
      · exact .inl hunknown
      · exact .inr (.inl ⟨hunset', hunread.append hunread'⟩)
      · exact .inr (.inr ⟨hunread.readWritten.append hreads,
          hmem.imp_left (List.mem_append_right _)⟩)
    · obtain ⟨hne, hmem⟩ := hapart hinside
      exact .inr (.inr ⟨hreads.append (hf₀.outside hne hmem).1.readWritten,
        .inl (List.mem_append_left _ hinside)⟩)
    · obtain ⟨hv'', hreads'⟩ := hf₀.later heq hv'
      exact .inr (.inr ⟨hreads.append hreads', .inr ⟨heq, hv''⟩⟩)

theorem andThen {y : Infer β} (hx : Assigns r a v here ms W W' sites x)
    (hy : Assigns r a v here ms' W' W'' sites' y) :
    Assigns r a v here (ms ++ ms') W W'' (sites ++ sites') (x >>= fun _ => y) :=
  hx.bind fun _ => hy

/-- The order of an outline does not matter. -/
theorem reorder (h : Assigns r a v here ms W W' sites x)
    (hperm : (Mark.functionsOf ms).Perm (Mark.functionsOf ms')) :
    Assigns r a v here ms' W W' sites x := fun hnodup =>
  { h (((hperm.cons here).nodup_iff).mpr hnodup) with
    outside := fun hne hmem => (h ((hperm.cons here).nodup_iff.mpr hnodup)).outside hne
      fun h => hmem (hperm.mem_iff.mp h)
    unset := fun s hs => ((h ((hperm.cons here).nodup_iff.mpr hnodup)).unset s hs).imp_right
      (.imp_right (.imp_right (.imp_left hperm.mem_iff.mp))) }

/-- What is worked out from the result does not matter. -/
theorem yields (h : Assigns r a v here ms W W' sites x) (g : α → β) :
    Assigns r a v here ms W W' sites (x >>= fun t => Pure.pure (g t)) := by
  have hbind := h.bind fun t => pure (W := W') (g t)
  rwa [List.append_nil, List.append_nil] at hbind

/-- A site at which nothing is read. -/
theorem cons (site : TypeSite) (h : Assigns r a v here ms W W' sites x)
    (hplaced : ∃ env : Environment, env.Valid r ∧ site.Placed r env)
    (hread : ∀ W i, site ≠ .read W i) :
    Assigns r a v here ms W W' (site :: sites) x := by
  intro hnodup
  have h := h hnodup
  have hunread : a.Unread v [site] :=
    fun W i hmem => absurd (List.mem_singleton.mp hmem).symm (hread W i)
  exact
    { placed := List.forall_mem_cons.mpr ⟨hplaced, h.placed⟩
      outside := fun hne hmem => (h.outside hne hmem).imp_left hunread.append
      later := fun heq hv => (h.later heq hv).imp_right hunread.readWritten.append
      unknown := h.unknown
      unset := fun s hs => (h.unset s hs).imp_right
        (.imp (.imp_right hunread.append) (.imp_left hunread.readWritten.append)) }

/-- The body of a nested function. -/
theorem nested {id : FunctionId} (h : Assigns r a v id ms ∅ W' sites x) :
    Assigns r a v here [.function id ms] W W sites x := by
  intro hnodup
  change (here :: (id :: Mark.functionsOf ms ++ [])).Nodup at hnodup
  rw [List.append_nil] at hnodup
  have h := h hnodup.of_cons
  change Follows r a v here (id :: Mark.functionsOf ms ++ []) W W sites x
  rw [List.append_nil]
  refine
    { placed := h.placed
      outside := fun _ hmem => ?_
      later := fun heq hv => ⟨hv, ?_⟩
      unknown := h.unknown
      unset := fun s hs => (h.unset s hs).imp_right (.imp_right (.imp_right fun hmem => ?_)) }
  · rw [List.mem_cons, not_or] at hmem
    exact h.outside hmem.1 hmem.2
  · have hmem : (r.var v).body ∉ id :: Mark.functionsOf ms := heq ▸ (List.nodup_cons.mp hnodup).1
    rw [List.mem_cons, not_or] at hmem
    exact (h.outside hmem.1 hmem.2).1.readWritten
  · rcases hmem with hmem | ⟨heq, -⟩
    · exact .inl (List.mem_cons_of_mem _ hmem)
    · exact .inl (heq ▸ List.mem_cons_self)

end Assigns

/-! ### Reads and writes -/

section Names

variable {r a : Analysis} {v : VariableId} {env : Environment} {i : Identifier}

theorem types_set_of_ne {v w : VariableId} (h : w ≠ v) (t : ValueType) (s : Inference) :
    (set w t s).2.types[v]? = s.types[v]? := by
  cases hw : s.types[w]? with
  | none => rw [set_of_none hw]
  | some old =>
    by_cases heq : old = t
    · rw [set_of_eq (heq ▸ hw)]
    · rw [set_of_ne hw heq]
      exact Array.getElem?_setIfInBounds_ne h

theorem types_set_self {v : VariableId} (t : ValueType) {s : Inference} {old : ValueType}
    (h : s.types[v]? = some old) : (set v t s).2.types[v]? = some t := by
  by_cases heq : old = t
  · rw [set_of_eq (heq ▸ h), h, heq]
  · obtain ⟨hv, -⟩ := Array.getElem?_eq_some_iff.mp h
    rw [set_of_ne h heq]
    exact Array.getElem?_setIfInBounds_self_of_lt hv

theorem types_read (w : VariableId) (s : Inference) :
    (read w s).2 = if s.types[w]?.getD .unknown = .unset then (set w .unknown s).2 else s := by
  rw [read_eq]
  split <;> rfl

/-- Names of other variables do not matter. -/
theorem Assigns.of_other {α : Type} {here : FunctionId} {W W' : Set VariableId}
    {sites : List TypeSite} {x : Infer α}
    (hplaced : ∀ site ∈ sites, ∃ env : Environment, env.Valid r ∧ site.Placed r env)
    (hunread : a.Unread v sites) (hsame : ∀ s, (x s).2.types[v]? = s.types[v]?)
    (hW : v ∈ W → v ∈ W') :
    Assigns r a v here [] W W' sites x := fun _ =>
  { placed := hplaced
    outside := fun _ _ => ⟨hunread, hsame⟩
    later := fun _ hv => ⟨hW hv, hunread.readWritten⟩
    unknown := fun s h => (hsame s).trans h
    unset := fun s h => .inr (.inl ⟨(hsame s).trans h, hunread⟩) }

/-- A first read spoils the type of a variable. -/
theorem Assigns.read (hv : r.Tracks a v) (henv : env.Valid r)
    (hi : i.Resolved r env) (W : Set VariableId) :
    Assigns r a v (Resolve.current env) [] W W [.read W i] (readName a.reference? i) := by
  have hplaced : ∀ site ∈ [TypeSite.read W i], ∃ env : Environment, env.Valid r ∧
      site.Placed r env :=
    fun site hsite => ⟨env, henv, by cases List.mem_singleton.mp hsite; exact hi⟩
  by_cases hname : a.reference? i = some v
  · have hown := hv.own env i henv hi (hv.same.reference? i ▸ hname)
    have hread : readName a.reference? i = Infer.read v := by
      unfold readName
      rw [hname]
    rw [hread]
    refine fun _ =>
      { placed := hplaced
        outside := fun hne => absurd hown hne
        later := fun _ hv => ⟨hv, fun W' i' hmem _ => ?_⟩
        unknown := fun s h => ?_
        unset := fun s h => .inl ?_ }
    · cases List.mem_singleton.mp hmem
      exact hv
    · rw [types_read, if_neg (by rw [h]; nofun)]
      exact h
    · rw [types_read, if_pos (by rw [h]; rfl)]
      exact types_set_self _ h
  · refine .of_other hplaced (fun W' i' hmem hi' => ?_) (fun s => ?_) fun h => h
    · cases List.mem_singleton.mp hmem
      exact hname hi'
    · unfold readName
      cases hw : a.reference? i with
      | none => rfl
      | some w =>
        dsimp only
        rw [types_read]
        split
        · exact types_set_of_ne (fun h => hname (hw.trans (congrArg some h))) _ _
        · rfl

/-- A first write settles the type of a variable if it always happens, and spoils it otherwise. -/
theorem Assigns.write (hv : r.Tracks a v) (henv : env.Valid r)
    (hi : i.Resolved r env) (W : Set VariableId) {t : ValueType} (ht : t ≠ .unset) (t' : ValueType)
    (always : Bool) :
    Assigns r a v (Resolve.current env) [] W (a.written always W i) [.write i t]
      (writeName a.reference? i t' always) := by
  have hplaced : ∀ site ∈ [TypeSite.write i t], ∃ env : Environment, env.Valid r ∧
      site.Placed r env :=
    fun site hsite => ⟨env, henv, by cases List.mem_singleton.mp hsite; exact ⟨hi, ht⟩⟩
  have hunread : a.Unread v [.write i t] := fun W' i' hmem => by cases List.mem_singleton.mp hmem
  by_cases hname : a.reference? i = some v
  · have hown := hv.own env i henv hi (hv.same.reference? i ▸ hname)
    have hwrite : writeName a.reference? i t' always = Infer.write v t' always := by
      unfold writeName
      rw [hname]
    rw [hwrite]
    refine fun _ =>
      { placed := hplaced
        outside := fun hne => absurd hown hne
        later := fun _ hv => ⟨.inl hv, hunread.readWritten⟩
        unknown := fun s h => ?_
        unset := fun s h => ?_ }
    · rw [write_eq, h, types_set_self _ h]
      cases t' <;> rfl
    · rw [write_eq, h, types_set_self _ h]
      cases always with
      | false => exact .inl rfl
      | true => exact .inr (.inr ⟨hunread.readWritten, .inr ⟨hown, .inr ⟨rfl, hname⟩⟩⟩)
  · refine .of_other hplaced hunread (fun s => ?_) fun h => .inl h
    unfold writeName
    cases hw : a.reference? i with
    | none => rfl
    | some w =>
      dsimp only
      rw [write_eq]
      exact types_set_of_ne (fun h => hname (hw.trans (congrArg some h))) _ _

end Names

/-! ### Passes over code -/

section Code

variable {r a : Analysis} {origin : VariableId → NodeId} {v : VariableId}

/-- What goes through the value of an expression if it is a plain assignment to a name. -/
abbrev AssignsValue (r a : Analysis) (v : VariableId) (here : FunctionId) (W : Set VariableId)
    (e : Expr) :
    Prop :=
  ∀ (span : Span) (i : Identifier) (value : Expr), e = .assign span .plain (.identifier i) value →
    Assigns r a v here value.marks W W (value.typeSites a W) (expr a.reference? value)

theorem Assigns.statement {env : Environment} (hv : r.Tracks a v) (henv : env.Valid r)
    {W : Set VariableId} {e : Expr} (he : Expr.Resolved r origin env e)
    (h : Assigns r a v (Resolve.current env) e.marks W W (e.typeSites a W) (expr a.reference? e))
    (hvalue : AssignsValue r a v (Resolve.current env) W e) (top : Bool) :
    Assigns r a v (Resolve.current env) e.marks W (e.after a top W) (e.typeSites a W)
      (Infer.statement a.reference? top e) := by
  unfold Infer.statement
  split
  · next span i value =>
    exact ((hvalue span i value rfl).bind fun t => .write hv henv he.1 W
      (value.type_ne_unset hv.types) t top).reorder
      (by simp [Identifier.mark])
  · next hassign =>
    have hafter : e.after a top W = W := by
      unfold Expr.after
      split
      · next span i value => exact (hassign span i value rfl).elim
      · rfl
    rw [hafter]
    exact h.yields _

/-- The block of a `catch` clause. -/
theorem Assigns.handler {env : Environment} (henv : env.Valid r) {W : Set VariableId} {span : Span}
    {param : Identifier} {b : Block} (h : Handler.Resolved r origin env (.mk span param b))
    (hblock : ∀ {env : Environment}, env.Valid r → Block.Resolved r origin env b →
      Assigns r a v (Resolve.current env) b.marks W W (b.typeSites a W) (block a.reference? b)) :
    Assigns r a v (Resolve.current env) (param.mark :: b.marks) W W
      (.caught param :: b.typeSites a W) (block a.reference? b) := by
  obtain ⟨w, hw, -, hvalid, hbody⟩ := h
  have hblock := hblock (henv.openScope hvalid) hbody
  rw [Resolve.current_openScope] at hblock
  exact hblock.cons (.caught param) ⟨env, henv, w, hw, hvalid⟩ nofun

mutual

theorem assigns_expr {env : Environment} (hv : r.Tracks a v)
    (henv : env.Valid r) (W : Set VariableId) : ∀ e : Expr, Expr.Resolved r origin env e →
      Assigns r a v (Resolve.current env) e.marks W W (e.typeSites a W) (expr a.reference? e)
  | .literal .. , _ | .this _, _ => .pure _
  | .identifier i, h => .read hv henv h W
  | .array _ elements, h => (assigns_elementList hv henv W elements h).yields _
  | .object _ properties, h => (assigns_propertyList hv henv W properties h).yields _
  | .function f, h => (assigns_func hv henv W f h).yields _
  | .unary _ _ argument, h => (assigns_expr hv henv W argument h).yields _
  | .update _ _ (.identifier i) _, h => by
    have hwrite := Assigns.write hv henv h W (t := .double) nofun .double false
    rw [a.written_false] at hwrite
    exact (Assigns.read hv henv h W).andThen (hwrite.yields _)
  | .update _ _ (.member m) _, h => (assigns_member hv henv W m h).yields _
  | .binary _ _ left right, h => (assigns_expr hv henv W left h.1).bind fun _ =>
    (assigns_expr hv henv W right h.2).yields _
  | .logical _ _ left right, h => (assigns_expr hv henv W left h.1).bind fun _ =>
    (assigns_expr hv henv W right h.2).yields _
  | .assign _ .plain (.identifier i) value, h => by
    refine (?_ : Assigns r a v (Resolve.current env) (value.marks ++ []) W W _ _).reorder
      (by simp [Identifier.mark])
    refine (assigns_expr hv henv W value h.2).bind fun t => ?_
    have hwrite := Assigns.write hv henv h.1 W (value.type_ne_unset hv.types) t false
    rw [a.written_false] at hwrite
    exact hwrite.yields _
  | .assign _ (.compound op) (.identifier i) value, h => by
    change Assigns r a v (Resolve.current env) ([] ++ value.marks) W W _ _
    refine (Assigns.read hv henv h.1 W).bind fun current => ?_
    refine (?_ : Assigns r a v (Resolve.current env) (value.marks ++ []) W W _ _).reorder (by simp)
    refine (assigns_expr hv henv W value h.2).bind fun t => ?_
    have hwrite := Assigns.write hv henv h.1 W
      (op.resultType_ne_unset (a.nameType i) (value.type a)) (op.resultType current t) false
    rw [a.written_false] at hwrite
    exact hwrite.yields _
  | .assign _ .plain (.member m) value, h => (assigns_member hv henv W m h.1).bind fun _ =>
    (assigns_expr hv henv W value h.2).yields _
  | .assign _ (.compound op) (.member m) value, h => (assigns_member hv henv W m h.1).bind fun _ =>
    (assigns_expr hv henv W value h.2).yields _
  | .conditional _ test consequent alternate, h =>
    ((assigns_expr hv henv W test h.1).bind fun _ =>
      (assigns_expr hv henv W consequent h.2.1).bind fun _ =>
        (assigns_expr hv henv W alternate h.2.2).yields _).reorder (by simp)
  | .call _ callee arguments, h => (assigns_expr hv henv W callee h.1).bind fun _ =>
    (assigns_exprList hv henv W arguments h.2 .unknown).yields _
  | .construct _ callee arguments, h => (assigns_expr hv henv W callee h.1).bind fun _ =>
    (assigns_exprList hv henv W arguments h.2 .unknown).yields _
  | .sequence _ expressions, h => assigns_exprList hv henv W expressions h .unknown
  | .member m, h => (assigns_member hv henv W m h).yields _
termination_by structural x => x

theorem assigns_exprList {env : Environment} (hv : r.Tracks a v)
    (henv : env.Valid r) (W : Set VariableId) : ∀ es : List Expr, exprsResolved r origin env es →
    ∀ last : ValueType,
      Assigns r a v (Resolve.current env) (exprMarks es) W W (exprTypeSites a W es)
        (exprList a.reference? last es)
  | [], _, _ => .pure _
  | e :: rest, h, _ => (assigns_expr hv henv W e h.1).bind fun t =>
    assigns_exprList hv henv W rest h.2 t
termination_by structural x => x

theorem assigns_elementList {env : Environment} (hv : r.Tracks a v)
    (henv : env.Valid r) (W : Set VariableId) :
    ∀ es : List (Option Expr), elementsResolved r origin env es →
      Assigns r a v (Resolve.current env) (elementMarks es) W W (elementTypeSites a W es)
        (elementList a.reference? es)
  | [], _ => .pure _
  | none :: rest, h => assigns_elementList hv henv W rest h
  | some e :: rest, h => (assigns_expr hv henv W e h.1).bind fun _ =>
    assigns_elementList hv henv W rest h.2
termination_by structural x => x

theorem assigns_propertyList {env : Environment} (hv : r.Tracks a v)
    (henv : env.Valid r) (W : Set VariableId) :
    ∀ ps : List Property, propertiesResolved r origin env ps →
      Assigns r a v (Resolve.current env) (propertyMarks ps) W W (propertyTypeSites a W ps)
        (propertyList a.reference? ps)
  | [], _ => .pure _
  | .mk _ _ value :: rest, h => (assigns_expr hv henv W value h.1).bind fun _ =>
    assigns_propertyList hv henv W rest h.2
termination_by structural x => x

theorem assigns_member {env : Environment} (hv : r.Tracks a v)
    (henv : env.Valid r) (W : Set VariableId) : ∀ m : Member, Member.Resolved r origin env m →
      Assigns r a v (Resolve.current env) m.marks W W (m.typeSites a W) (member a.reference? m)
  | .named _ object _, h => (assigns_expr hv henv W object h).yields _
  | .computed _ object property, h => (assigns_expr hv henv W object h.1).bind fun _ =>
    (assigns_expr hv henv W property h.2).yields _
termination_by structural x => x

theorem assigns_value {env : Environment} (hv : r.Tracks a v)
    (henv : env.Valid r) (W : Set VariableId) : ∀ e : Expr, Expr.Resolved r origin env e →
      AssignsValue r a v (Resolve.current env) W e
  | .assign _ .plain (.identifier _) value, h => by
    rintro _ _ _ ⟨⟩
    exact assigns_expr hv henv W value h.2
  | .assign _ .plain (.member _) _, _ | .assign _ (.compound _) _ _, _ | .literal .., _
  | .identifier _, _ | .this _, _ | .array .., _ | .object .., _ | .function _, _ | .unary .., _
  | .update .., _ | .binary .., _ | .logical .., _ | .conditional .., _ | .call .., _
  | .construct .., _ | .sequence .., _ | .member _, _ => nofun
termination_by structural x => x

theorem assigns_func {env : Environment} (hv : r.Tracks a v)
    (henv : env.Valid r) (W : Set VariableId) : ∀ f : Func, Func.Resolved r origin env f →
      Assigns r a v (Resolve.current env) [f.mark] W W (f.typeSites a) (func a.reference? f)
  | .mk span id name params strict isExpression bodySpan body, h => by
    have hbody := assigns_stmtList hv (henv.opens h.1) true ∅ body h.2
    have hnested : Assigns r a v (Resolve.current env) [.function id (stmtMarks body)] W W
        (.called id :: stmtTypeSites a true ∅ body) (stmtList a.reference? true body) :=
      (hbody.cons (.called id) ⟨env, henv, trivial⟩ nofun).nested
    refine hnested.reorder ?_
    rw [Resolve.functionsOf_mark]
    simp [Mark.functionsOf, Mark.functions, Func.id, Func.body]
termination_by structural x => x

theorem assigns_stmtList {env : Environment} (hv : r.Tracks a v)
    (henv : env.Valid r) (top : Bool) (W : Set VariableId) :
    ∀ ss : List Stmt, stmtsResolved r origin env ss →
      Assigns r a v (Resolve.current env) (stmtMarks ss) W (stmtsAfter a top W ss)
        (stmtTypeSites a top W ss) (stmtList a.reference? top ss)
  | [], _ => .pure _
  | s :: rest, h => (assigns_stmt hv henv top W s h.1).andThen
    (assigns_stmtList hv henv top _ rest h.2)
termination_by structural x => x

theorem assigns_declaratorList {env : Environment} (hv : r.Tracks a v)
    (henv : env.Valid r) (top : Bool) (W : Set VariableId) :
    ∀ ds : List Declarator, declaratorsResolved r origin env ds →
      Assigns r a v (Resolve.current env) (declaratorMarks ds) W (declaratorsAfter a top W ds)
        (declaratorTypeSites a top W ds) (declaratorList a.reference? top ds)
  | [], _ => .pure _
  | .mk _ _ none :: rest, h => assigns_declaratorList hv henv top W rest h.2
  | .mk _ name (some init) :: rest, h =>
    (assigns_expr hv henv W init h.2.1).bind fun t =>
      (Assigns.write hv henv h.1 W (init.type_ne_unset hv.types) t top).andThen
        (assigns_declaratorList hv henv top (a.written top W name) rest h.2.2)
termination_by structural x => x

theorem assigns_clauseList {env : Environment} (hv : r.Tracks a v)
    (henv : env.Valid r) (W : Set VariableId) :
    ∀ cs : List SwitchClause, clausesResolved r origin env cs →
      Assigns r a v (Resolve.current env) (clauseMarks cs) W W (clauseTypeSites a W cs)
        (clauseList a.reference? cs)
  | [], _ => .pure _
  | .mk _ none body :: rest, h => by
    have hbody := assigns_stmtList hv henv false W body h.1
    rw [stmtsAfter_false] at hbody
    exact hbody.andThen (assigns_clauseList hv henv W rest h.2)
  | .mk _ (some test) body :: rest, h => by
    have hbody := assigns_stmtList hv henv false W body h.2.1
    rw [stmtsAfter_false] at hbody
    exact ((assigns_expr hv henv W test h.1).andThen
      (hbody.andThen (assigns_clauseList hv henv W rest h.2.2))).reorder (by simp)
termination_by structural x => x

theorem assigns_block {env : Environment} (hv : r.Tracks a v)
    (henv : env.Valid r) (W : Set VariableId) : ∀ b : Block, Block.Resolved r origin env b →
      Assigns r a v (Resolve.current env) b.marks W W (b.typeSites a W) (block a.reference? b)
  | .mk _ body, h => by
    have hbody := assigns_stmtList hv henv false W body h
    rwa [stmtsAfter_false] at hbody
termination_by structural x => x

theorem assigns_option {env : Environment} (hv : r.Tracks a v)
    (henv : env.Valid r) (W : Set VariableId) : ∀ e : Option Expr, optionResolved r origin env e →
      Assigns r a v (Resolve.current env) (optionMarks e) W W (optionTypeSites a W e)
        (option a.reference? e)
  | none, _ => .pure _
  | some e, h => (assigns_expr hv henv W e h).yields _
termination_by structural x => x

theorem assigns_forInit {env : Environment} (hv : r.Tracks a v)
    (henv : env.Valid r) (top : Bool) (W : Set VariableId) :
    ∀ init : ForInit, ForInit.Resolved r origin env init →
      Assigns r a v (Resolve.current env) init.marks W (init.after a top W) (init.typeSites a top W)
        (forInit a.reference? top init)
  | .nothing, _ => .pure _
  | .declaration _ ds, h => assigns_declaratorList hv henv top W ds h
  | .expression e, h => .statement hv henv h (assigns_expr hv henv W e h)
    (assigns_value hv henv W e h) top
termination_by structural x => x

theorem assigns_forInTarget {env : Environment} (hv : r.Tracks a v)
    (henv : env.Valid r) (W : Set VariableId) :
    ∀ left : ForInTarget, ForInTarget.Resolved r origin env left →
      Assigns r a v (Resolve.current env) left.marks W W (left.typeSites a W)
        (forInTarget a.reference? left)
  | .declaration i, h | .target (.identifier i), h => by
    have hwrite := Assigns.write hv henv h W (t := .string) nofun .string false
    rwa [a.written_false] at hwrite
  | .target (.member m), h => assigns_member hv henv W m h
termination_by structural x => x

theorem assigns_stmt {env : Environment} (hv : r.Tracks a v)
    (henv : env.Valid r) (top : Bool) (W : Set VariableId) :
    ∀ s : Stmt, Stmt.Resolved r origin env s →
      Assigns r a v (Resolve.current env) s.marks W (s.after a top W) (s.typeSites a top W)
        (stmt a.reference? top s)
  | .empty _, _ | .debugger _, _ | .brk .., _ | .cont .., _ | .ret _ none, _ => .pure _
  | .expression _ e, h => by
    rw [stmt_expression]
    exact .statement hv henv h (assigns_expr hv henv W e h) (assigns_value hv henv W e h) top
  | .block b, h => assigns_block hv henv W b h
  | .ret _ (some e), h => (assigns_expr hv henv W e h).yields _
  | .throw _ e, h => (assigns_expr hv henv W e h).yields _
  | .labeled _ _ body, h => by
    have hbody := assigns_stmt hv henv false W body h
    rwa [Stmt.after_false] at hbody
  | .conditional _ test consequent none, h => by
    have hconsequent := assigns_stmt hv henv false W consequent h.2
    rw [Stmt.after_false] at hconsequent
    exact (assigns_expr hv henv W test h.1).andThen hconsequent
  | .conditional _ test consequent (some alternate), h => by
    have hconsequent := assigns_stmt hv henv false W consequent h.2.1
    have halternate := assigns_stmt hv henv false W alternate h.2.2
    rw [Stmt.after_false] at hconsequent halternate
    exact ((assigns_expr hv henv W test h.1).andThen (hconsequent.andThen halternate)).reorder
      (by simp)
  | .switch _ discriminant clauses, h => (assigns_expr hv henv W discriminant h.1).andThen
    (assigns_clauseList hv henv W clauses h.2)
  | .tryCatch _ b none none, h =>
    ((assigns_block hv henv W b h.1).andThen (.pure _)).reorder (by simp)
  | .tryCatch _ b none (some f), h => ((assigns_block hv henv W b h.1).andThen
    (assigns_block hv henv W f h.2.2)).reorder (by simp)
  | .tryCatch _ b (some (.mk span param hb)) none, h =>
    ((assigns_block hv henv W b h.1).andThen
      ((Assigns.handler henv h.2.1 fun henv => assigns_block hv henv W hb).andThen
        (.pure _))).reorder (by simp)
  | .tryCatch _ b (some (.mk span param hb)) (some f), h =>
    ((assigns_block hv henv W b h.1).andThen
      ((Assigns.handler henv h.2.1 fun henv => assigns_block hv henv W hb).andThen
        (assigns_block hv henv W f h.2.2))).reorder (by simp)
  | .while _ test body, h => by
    have hbody := assigns_stmt hv henv false W body h.2
    rw [Stmt.after_false] at hbody
    exact (assigns_expr hv henv W test h.1).andThen hbody
  | .doWhile _ test body, h => by
    have hbody := assigns_stmt hv henv false W body h.2
    rw [Stmt.after_false] at hbody
    exact hbody.andThen ((assigns_expr hv henv W test h.1).yields _)
  | .for _ init test update body, h => by
    obtain ⟨hi, ht, hu, hb⟩ := h
    have hbody := assigns_stmt hv henv false (init.after a top W) body hb
    rw [Stmt.after_false] at hbody
    rw [stmt_for]
    refine ((assigns_forInit hv henv top W init hi).andThen
      ((assigns_option hv henv _ test ht).andThen
        (hbody.andThen (assigns_option hv henv _ update hu)))).reorder ?_
    simp only [Stmt.marks, Mark.functionsOf_append, List.append_assoc]
    exact .append_left _ (.append_left _ List.perm_append_comm)
  | .forIn _ left right body, h => by
    have hbody := assigns_stmt hv henv false W body h.2.2
    rw [Stmt.after_false] at hbody
    refine ((assigns_expr hv henv W right h.2.1).andThen
      ((assigns_forInTarget hv henv W left h.1).andThen hbody)).reorder ?_
    simp only [Stmt.marks, Mark.functionsOf_append, ← List.append_assoc]
    exact .append_right _ List.perm_append_comm
  | .with _ id object body, h => by
    obtain ⟨ho, w, hw, -, hvalid, hb⟩ := h
    have hbody := assigns_stmt hv (henv.openScope hvalid) false W body hb
    rw [Stmt.after_false, Resolve.current_openScope] at hbody
    exact (((assigns_expr hv henv W object ho).andThen hbody).cons (.held id)
      ⟨env, henv, w, hw, hvalid⟩ nofun).reorder (by simp)
  | .declaration _ ds, h => assigns_declaratorList hv henv top W ds h
  | .function f, h => by
    have hfunc := assigns_func hv henv.hoisted W f h.2
    rw [Resolve.current_hoistedEnvironment] at hfunc
    obtain ⟨span, id, name, params, strict, isExpression, bodySpan, body⟩ := f
    cases name with
    | none => exact hfunc
    | some name => exact hfunc.cons (.declared name) ⟨env, henv, h.1 name rfl⟩ nofun
termination_by structural x => x

end

end Code

end Infer

/-! ### Types before the first pass -/

namespace Analysis

section Seeds

variable {a : Analysis} {v : VariableId} {types : Array ValueType}

/-- The layouts of records do not matter for types. -/
theorem valueType_withLayouts (a : Analysis) (v : VariableId) :
    (a.withLayouts.var v).valueType = (a.var v).valueType := by
  have hfold {ι : Type} {f : Analysis → ι → Analysis}
      (hf : ∀ b i, ((f b i).var v).valueType = (b.var v).valueType) (l : List ι) (b : Analysis) :
      ((l.foldl f b).var v).valueType = (b.var v).valueType := by
    induction l generalizing b with
    | nil => rfl
    | cons i rest ih => rw [List.foldl_cons, ih, hf]
  have hplace (layout : LayoutId) (b : Analysis) (w : VariableId) :
      ((b.placeVariable layout w).var v).valueType = (b.var v).valueType := by
    unfold placeVariable
    split
    · unfold var
      simp only [Array.getElem?_modify]
      split
      · cases b.vars[v]? <;> rfl
      · rfl
    · rfl
  have hplaces (b : Analysis) (id : FunctionId) :
      ((b.placeVariables id).var v).valueType = (b.var v).valueType := by
    unfold placeVariables
    split
    · exact hfold (hplace _) _ _
    · rfl
  have hadd (b : Analysis) (id : FunctionId) :
      ((b.addLayout id).var v).valueType = (b.var v).valueType := by
    unfold addLayout
    dsimp only
    split <;> rfl
  unfold withLayouts
  dsimp only
  have hlink (b : Analysis) (id : FunctionId) :
      ((b.linkParentLayout id).var v).valueType = (b.var v).valueType := rfl
  rw [hfold hplaces, hfold hlink, hfold hadd]

/-- What stays unset is not among the variables whose types are replaced. -/
theorem unset_of_foldl_setUnset {t : ValueType} (ht : t ≠ .unset) : ∀ (l : List VariableId)
    {types : Array ValueType}, (l.foldl (setUnset t) types)[v]? = some .unset →
      v ∉ l ∧ types[v]? = some .unset
  | [], _, h => ⟨List.not_mem_nil, h⟩
  | w :: rest, types, h => by
    obtain ⟨hmem, hw⟩ := unset_of_foldl_setUnset ht rest h
    simp only [setUnset, Array.getElem?_modify] at hw
    split at hw
    · obtain ⟨old, hold, heq⟩ := Option.map_eq_some_iff.mp hw
      split at heq
      · exact absurd heq ht
      · next hne => exact absurd heq hne
    · next hne => exact ⟨List.not_mem_cons_of_ne_of_not_mem (Ne.symm hne) hmem, hw⟩

theorem unset_of_foldl_set_unknown : ∀ (l : List VariableId) {types : Array ValueType},
    (l.foldl (fun types v => types.setIfInBounds v .unknown) types)[v]? = some .unset →
      v ∉ l ∧ types[v]? = some .unset
  | [], _, h => ⟨List.not_mem_nil, h⟩
  | w :: rest, types, h => by
    obtain ⟨hmem, hw⟩ := unset_of_foldl_set_unknown rest h
    rw [Array.getElem?_setIfInBounds] at hw
    split at hw
    · split at hw <;> cases hw
    · next hne => exact ⟨List.not_mem_cons_of_ne_of_not_mem (Ne.symm hne) hmem, hw⟩

/-- What is known about a variable whose type says nothing yet before the first pass. -/
structure Open (a : Analysis) (v : VariableId) : Prop where
  kind : (a.var v).kind = .local
  captured : (a.var v).isCaptured = false
  valueType : (a.var v).valueType = .unset
  fallback : ∀ w, (a.var w).fallback ≠ some v
  synthetic : ∀ id, v ∉ (a.body id).synthetic
  hoisted : (a.var v).hoisted = false

theorem open_of_seededTypes (h : a.seededTypes[v]? = some .unset) : a.Open v := by
  obtain ⟨hhoisted, h⟩ := unset_of_foldl_setUnset (by decide) _ h
  obtain ⟨hsynthetic, h⟩ := unset_of_foldl_setUnset (by decide) _ h
  obtain ⟨hfallback, h⟩ := unset_of_foldl_set_unknown _ h
  rw [Array.getElem?_map, Option.map_eq_some_iff] at h
  obtain ⟨x, hx, htype⟩ := h
  have hvar : a.var v = x := by rw [var, hx]; rfl
  subst hvar
  split at htype
  · next hown =>
    simp only [Bool.and_eq_true, decide_eq_true_eq, Bool.not_eq_true'] at hown
    refine ⟨hown.1, hown.2, htype, fun w hw => hfallback (mem_fallbacks a hw),
      fun id hmem => hsynthetic ?_, ?_⟩
    · unfold body at hmem
      cases hbody : a.bodies[id]? with
      | none =>
        rw [hbody] at hmem
        cases hmem
      | some b =>
        rw [hbody] at hmem
        exact List.mem_flatMap.mpr ⟨b, Array.mem_toList_iff.mpr (Array.mem_of_getElem? hbody), hmem⟩
    · have hlt : v < a.vars.size := (Array.getElem?_eq_some_iff.mp hx).1
      simpa [hlt] using hhoisted
  · cases htype

/-- No type is concrete before the first pass. -/
theorem not_isConcrete_seededTypes (htypes : ∀ v, ¬ (a.var v).valueType.IsConcrete) {t : ValueType}
    (h : a.seededTypes[v]? = some t) : ¬ t.IsConcrete := by
  have hfold {f : Array ValueType → VariableId → Array ValueType}
      (hf : ∀ types w, (∀ t, types[v]? = some t → ¬ t.IsConcrete) →
        ∀ t, (f types w)[v]? = some t → ¬ t.IsConcrete) (l : List VariableId) {types :
          Array ValueType}
      (htypes : ∀ t, types[v]? = some t → ¬ t.IsConcrete) :
      ∀ t, (l.foldl f types)[v]? = some t → ¬ t.IsConcrete := by
    induction l generalizing types with
    | nil => exact htypes
    | cons w rest ih => exact ih (hf types w htypes)
  have hunset {new : ValueType} (hnew : ¬ new.IsConcrete) (types : Array ValueType) (w : VariableId)
      (h : ∀ t, types[v]? = some t → ¬ t.IsConcrete) : ∀ t, (setUnset new types w)[v]? = some t →
        ¬ t.IsConcrete := by
    intro t ht
    simp only [setUnset, Array.getElem?_modify] at ht
    split at ht
    · obtain ⟨old, hold, rfl⟩ := Option.map_eq_some_iff.mp ht
      split
      · exact hnew
      · exact h old hold
    · exact h t ht
  refine hfold (hunset (by decide)) _
    (hfold (hunset (by decide)) _ (hfold (fun types w h t ht => ?_) _ ?_)) t h
  · rw [Array.getElem?_setIfInBounds] at ht
    split at ht
    · split at ht
      · cases ht
        decide
      · cases ht
    · exact h t ht
  · intro t ht
    rw [Array.getElem?_map, Option.map_eq_some_iff] at ht
    obtain ⟨x, hx, rfl⟩ := ht
    have hvar : a.var v = x := by rw [var, hx]; rfl
    split
    · exact hvar ▸ htypes v
    · decide

end Seeds

end Analysis

/-! ### Sound sites -/

/-- What leaves a concrete type as it is has that type. -/
theorem ValueType.eq_of_merge_eq {s t : ValueType} (hs : s.IsConcrete) (ht : t ≠ .unset)
    (h : s.merge t = s) : t = s := by
  revert hs ht h
  cases s <;> cases t <;> decide

/-- The types of variables can be relied upon at a site. -/
def TypeSite.Sound (a : Analysis) : TypeSite → Prop
  | .read W i => a.Reads W i
  | .write i t => a.Writes i t
  | .caught i | .declared i => a.Receives i
  | .held id => ∀ v, a.withVariable? id = some v →
    ¬ (a.var v).valueType.IsConcrete ∧ (a.var v).kind ≠ .withScope
  | .called id => a.ReceivesOnCall id

namespace Analysis

variable {a : Analysis} {body : List Stmt} {v : VariableId}

theorem valueType_setTypes (types : Array ValueType) (hv : v < a.vars.size) :
    ((a.setTypes types).var v).valueType = (types[v]?.getD .unknown).orUnknown := by
  rw [var, Infer.vars_setTypes, Array.getElem?_eq_getElem hv]
  rfl

theorem lt_size_of_isConcrete (h : (a.var v).valueType.IsConcrete) : v < a.vars.size := by
  by_contra hle
  rw [var, Array.getElem?_eq_none (not_lt.mp hle)] at h
  exact absurd h (by decide)

/-- No pass takes a type down. -/
theorem passed_up (a : Analysis) (body : List Stmt) {s : ValueType}
    (h : a.seededTypes[v]? = some s) :
    ∀ n, ∃ t, (a.passed body n)[v]? = some t ∧ (s = t ∨ s.rank < t.rank)
  | 0 => ⟨s, h, .inl rfl⟩
  | n + 1 => by
    obtain ⟨t, ht, hst⟩ := passed_up a body h n
    obtain ⟨t', ht', htt'⟩ := (a.raises_pass body (a.passed body n)).up ht
    refine ⟨t', ?_, ?_⟩
    · unfold passed at ht' ⊢
      rw [Function.iterate_succ_apply']
      exact ht'
    · rcases hst with rfl | hlt
      · exact htt'
      · rcases htt' with rfl | hlt'
        · exact .inr hlt
        · exact .inr (hlt.trans hlt')

/-- A variable of a concrete type started without a type. -/
theorem seededTypes_of_isConcrete (htypes : ∀ v, ¬ (a.var v).valueType.IsConcrete)
    (h : ((a.withTypes body).var v).valueType.IsConcrete) : a.seededTypes[v]? = some .unset := by
  obtain ⟨n, -, -, -, heq⟩ := a.withTypes_eq body
  have hlt : v < a.vars.size := by
    simpa [withTypes, setTypes] using lt_size_of_isConcrete h
  obtain ⟨s, hs⟩ : ∃ s, a.seededTypes[v]? = some s :=
    ⟨_, Array.getElem?_eq_getElem (a.size_seededTypes.symm ▸ hlt)⟩
  obtain ⟨t, ht, hst⟩ := a.passed_up body hs n
  rw [heq, valueType_setTypes _ hlt, ht, Option.getD_some] at h
  rcases hst with rfl | hlt
  · refine absurd ?_ (not_isConcrete_seededTypes htypes hs)
    revert h
    cases s <;> decide
  · rw [hs]
    revert h hlt
    cases s <;> cases t <;> decide

end Analysis

section

variable {p : Program} {r b : Analysis} {origin : VariableId → NodeId} {v : VariableId}

theorem Program.WellNumbered.nodup_functions (hp : p.WellNumbered) :
    (0 :: Mark.functionsOf p.marks).Nodup := by
  refine List.nodup_cons.mpr ⟨fun hmem => ?_, hp.functions.nodup_iff.mpr List.nodup_range'⟩
  have := List.mem_range'.mp (hp.functions.mem_iff.mp hmem)
  omega

/-- All reads of a variable of a concrete type come after writes. -/
theorem readWritten_of_isConcrete (hp : p.WellNumbered) (hscoped : p.Scoped r origin)
    (htracks : r.Tracks (b.withTypes p.body) v) (hseeded : b.seededTypes[v]? = some .unset)
    (h : ((b.withTypes p.body).var v).valueType.IsConcrete) :
    (b.withTypes p.body).ReadWritten v (stmtTypeSites (b.withTypes p.body) true ∅ p.body) := by
  have hpass := Infer.assigns_stmtList htracks hscoped.valid true ∅ p.body hscoped.resolved
    hp.nodup_functions
  -- a pass settles whether all reads come after writes, unless the variable is not used at all
  have hpassed : ∀ n, (b.passed p.body n)[v]? = some .unset ∨ (b.passed p.body n)[v]? =
      some .unknown ∨
      (b.withTypes p.body).ReadWritten v (stmtTypeSites (b.withTypes p.body) true ∅ p.body) := by
    intro n
    induction n with
    | zero => exact .inl hseeded
    | succ n ih =>
      have hsucc : b.passed p.body (n + 1) = (b.pass p.body (b.passed p.body n)).types :=
        Function.iterate_succ_apply' ..
      rw [hsucc]
      rcases ih with hunset | hunknown | hreads
      · rcases hpass.unset ⟨b.passed p.body n, []⟩ hunset with hunknown | ⟨hunset, -⟩ | ⟨hreads, -⟩
        · exact .inr (.inl hunknown)
        · exact .inl hunset
        · exact .inr (.inr hreads)
      · exact .inr (.inl (hpass.unknown ⟨b.passed p.body n, []⟩ hunknown))
      · exact .inr (.inr hreads)
  obtain ⟨n, -, -, -, heq⟩ := b.withTypes_eq p.body
  have hlt : v < b.vars.size := b.size_seededTypes ▸ (Array.getElem?_eq_some_iff.mp hseeded).1
  rw [heq, Analysis.valueType_setTypes _ hlt] at h
  rcases hpassed n with hn | hn | hreads
  · rw [hn] at h
    exact absurd h (by decide)
  · rw [hn] at h
    exact absurd h (by decide)
  · exact hreads

end

/-! ### Scripts -/

section

variable {p : Program} {r : Analysis} {origin : VariableId → NodeId} {v : VariableId}
  {i : Identifier} {env : Environment}

/-- What is known of a variable of a concrete type. -/
structure Program.Concrete (p : Program) (r : Analysis) (v : VariableId) : Prop where
  own : r.Private v
  kind : (r.var v).kind = .local
  field : ((r.withLayouts.withTypes p.body).var v).field = none
  valueType : (r.var v).valueType = .unset
  fallback : ∀ w, (r.var w).fallback ≠ some v
  synthetic : ∀ id, v ∉ (r.body id).synthetic
  hoisted : (r.var v).hoisted = false
  seeded : r.withLayouts.seededTypes[v]? = some .unset

namespace Program.Scoped

theorem laidOut (h : p.Scoped r origin) : r.LaidOut (r.withLayouts.withTypes p.body) :=
  (Analysis.laidOut_withLayouts h.sound).retype (by simp) (Analysis.var_setTypes _ _)

theorem concrete (h : p.Scoped r origin)
    (hv : ((r.withLayouts.withTypes p.body).var v).valueType.IsConcrete) : p.Concrete r v := by
  have hlaid := Analysis.laidOut_withLayouts h.sound
  have hseeded := Analysis.seededTypes_of_isConcrete (fun w => ?_) hv
  · have hopen := Analysis.open_of_seededTypes hseeded
    obtain ⟨_, _, hvar⟩ := hlaid.same.var v
    have hkind : (r.var v).kind = .local := by
      rw [← hopen.kind, hvar]
    have hclosed : v ∉ (r.body (r.var v).body).closedOver := fun hmem => by
      have hcaptured := hlaid.isCaptured_iff_closedOver.mpr hmem
      rw [hopen.captured] at hcaptured
      cases hcaptured
    refine
      { own := h.sound.private hkind hclosed
        kind := hkind
        field := h.laidOut.unplaced v hclosed
        valueType := (r.valueType_withLayouts v).symm.trans hopen.valueType
        fallback := fun w hw => hopen.fallback w ?_
        synthetic := fun id hmem => hopen.synthetic id ?_
        hoisted := ?_
        seeded := hseeded }
    · obtain ⟨_, _, hw'⟩ := hlaid.same.var w
      rw [hw']
      exact hw
    · obtain ⟨_, _, hbody⟩ := hlaid.same.body id
      rw [hbody]
      exact hmem
    · rw [← hopen.hoisted, hvar]
  · rw [r.valueType_withLayouts]
    by_cases hlt : w < r.vars.size
    · rcases (h.sound.var w hlt).valueType with hw | hw <;> rw [hw] <;> decide
    · exact fun h => hlt (Analysis.lt_size_of_isConcrete h)

theorem tracks (h : p.Scoped r origin) (hv : r.Private v) :
    r.Tracks (r.withLayouts.withTypes p.body) v where
  same := h.laidOut.same
  own := hv
  types := r.withLayouts.valueType_withTypes_ne_unset p.body

/-- An identifier that is resolved may be used according to the type of its variable. -/
theorem guarded (h : p.Scoped r origin) (henv : env.Valid r) (hi : i.Resolved r env) :
    (r.withLayouts.withTypes p.body).Guarded i := by
  have hsame := h.laidOut.same
  refine ⟨fun v _ hv => ?_, fun v hname hkind w hw hconcrete => ?_,
    fun v target _ hfallback hv => ?_⟩
  · have hconcrete := h.concrete hv
    obtain ⟨_, _, hvar⟩ := hsame.var v
    have hlt : v < r.vars.size := by
      rw [← hsame.vars_size]
      exact Analysis.lt_size_of_isConcrete hv
    refine ⟨by rw [hvar]; exact hconcrete.kind, hconcrete.field, ?_⟩
    rw [hvar]
    refine Bool.eq_false_iff.mpr fun himmutable => ?_
    have hobject := (h.sound.var v hlt).immutable himmutable
    rw [hconcrete.valueType] at hobject
    cases hobject
  · -- only the object of a `with` statement is asked for a name, and its variable is made up
    obtain ⟨v', hv', target, outer, withs, hfind, -, hdenotes⟩ := hi
    rw [hsame.reference?] at hname
    obtain rfl := Option.some.inj (hv'.symm.trans hname)
    obtain ⟨_, _, hvar⟩ := hsame.var v'
    rw [hvar] at hkind hw
    change (r.var v').kind = .withScope at hkind
    rcases hdenotes with ⟨-, rfl⟩ | ⟨-, hguards⟩
    · obtain ⟨-, ⟨id, -, howns⟩, -⟩ := (henv.of_find h.sound hfind).1 v' outer rfl
      have := declarableKinds_subset id howns.kind
      simp [hkind] at this
    · have hmem : w.1 ∈ withs := by
        rw [hguards.var] at hw
        obtain ⟨w', hw', rfl⟩ := List.mem_map.mp hw
        exact hw'
      refine (h.concrete hconcrete).synthetic _ (henv.synthetic_of_find i.name false w.1 ?_)
      rw [hfind]
      exact hmem
  · obtain ⟨_, _, hvar⟩ := hsame.var v
    rw [hvar] at hfallback
    exact (h.concrete hv).fallback v hfallback

/-- A variable that may hold a function when its body is entered has no concrete type. -/
theorem not_isConcrete_of_holdsFunction (h : p.Scoped r origin) (hv : (r.var v).HoldsFunction) :
    ¬ ((r.withLayouts.withTypes p.body).var v).valueType.IsConcrete := by
  intro hconcrete
  rcases hv with hv | hv
  · rw [(h.concrete hconcrete).hoisted] at hv
    cases hv
  · rw [(h.concrete hconcrete).valueType] at hv
    cases hv

/-- A name that denotes a variable without a concrete type may get a value in any way. -/
theorem receives (h : p.Scoped r origin) (hi : r.reference? i = some v)
    (hkind : (r.var v).kind ≠ .withScope)
    (hv : ¬ ((r.withLayouts.withTypes p.body).var v).valueType.IsConcrete) :
    (r.withLayouts.withTypes p.body).Receives i := by
  have hname := (h.laidOut.same.reference? i).trans hi
  have heq {w : VariableId} (hw : (r.withLayouts.withTypes p.body).reference? i = some w) : w = v :=
    Option.some.inj (hw.symm.trans hname)
  refine ⟨⟨fun w hw hconcrete => absurd (heq hw ▸ hconcrete) hv, fun w hw hscope => ?_,
    fun w target _ hfallback hconcrete => ?_⟩, ?_⟩
  · obtain ⟨_, _, hvar⟩ := h.laidOut.same.var w
    rw [hvar] at hscope
    exact absurd (heq hw ▸ hscope) hkind
  · obtain ⟨_, _, hvar⟩ := h.laidOut.same.var w
    rw [hvar] at hfallback
    exact (h.concrete hconcrete).fallback w hfallback
  · unfold Analysis.nameType
    rw [hname, Option.bind_some]
    unfold Analysis.var at hv
    split
    · next x hx =>
      rw [hx] at hv
      exact hv
    · decide

/-- A name denotes a variable of the tables. -/
theorem private_size (h : p.Scoped r origin) : r.Private r.vars.size := by
  rintro env i henv ⟨w, hw, target, outer, withs, hfind, -, hdenotes⟩ hi
  obtain rfl := Option.some.inj (hw.symm.trans hi)
  obtain ⟨-, ⟨id, -, howns⟩, -⟩ := (henv.of_find h.sound hfind).1 target outer rfl
  rcases hdenotes with ⟨-, hv⟩ | ⟨-, hguards⟩
  · exact absurd (hv ▸ howns.bound) (lt_irrefl _)
  · exact absurd hguards.bound (lt_irrefl _)

/-- The name at every site is resolved. -/
theorem placed (h : p.Scoped r origin) (hp : p.WellNumbered) :
    ∀ x ∈ stmtTypeSites (r.withLayouts.withTypes p.body) true ∅ p.body,
      ∃ env : Environment, env.Valid r ∧ x.Placed r env :=
  (Infer.assigns_stmtList (h.tracks h.private_size) h.valid true ∅ p.body h.resolved
    hp.nodup_functions).placed

/-- A function fills variables that have no concrete types. -/
theorem receivesOnCall (h : p.Scoped r origin) (id : FunctionId) :
    (r.withLayouts.withTypes p.body).ReceivesOnCall id := by
  obtain ⟨_, _, hbody⟩ := h.laidOut.same.body id
  refine ⟨fun v hv hconcrete => ?_, fun v hv => ?_⟩
  · rw [hbody] at hv
    have hkind := List.mem_singleton.mp ((h.sound.body id).arguments v hv).kind
    rw [(h.concrete hconcrete).kind] at hkind
    cases hkind
  · rw [hbody] at hv
    obtain ⟨howns, hobject⟩ := (h.sound.body id).selfBinding v hv
    obtain ⟨_, _, hvar⟩ := h.laidOut.same.var v
    refine ⟨h.not_isConcrete_of_holdsFunction (.inr hobject), ?_⟩
    rw [hvar]
    exact List.mem_singleton.mp howns.kind

end Program.Scoped

end

/-- At every place of a script the types that are inferred can be relied upon: a variable of a
concrete type is read only after it was written, and all that is written to it is of its type.  What
gets its value in another way has no concrete type. -/
theorem Program.sound_typeSites {source : String} {p : Program} {strict : Bool} {a : Analysis}
    (hp : Program.parse source = .ok p) (ha : analyze p ⟨strict, true⟩ = .ok a) :
    ∀ x ∈ stmtTypeSites a true ∅ p.body, x.Sound a := by
  have hnumbered := Program.wellNumbered_of_parse hp
  unfold analyze at ha
  obtain ⟨r, hr, rfl⟩ : ∃ r, Resolve.program strict p = .ok r ∧
      r.withLayouts.withTypes p.body = a := by
    cases hr : Resolve.program strict p with
    | error e =>
      rw [hr] at ha
      cases ha
    | ok r =>
      rw [hr] at ha
      exact ⟨r, rfl, Except.ok.inj ha⟩
  obtain ⟨origin, h⟩ := Resolve.scoped_of_program hnumbered hr
  have hsame := h.laidOut.same
  intro x hx
  obtain ⟨env, henv, hplaced⟩ := h.placed hnumbered x hx
  have hsynthetic {v : VariableId} {id : FunctionId} (hv : v ∈ (r.body id).synthetic) :
      ¬ ((r.withLayouts.withTypes p.body).var v).valueType.IsConcrete :=
    fun hconcrete => (h.concrete hconcrete).synthetic id hv
  cases x with
  | read W i =>
    refine ⟨h.guarded henv hplaced, fun v hv hconcrete => ?_⟩
    exact readWritten_of_isConcrete hnumbered h (h.tracks (h.concrete hconcrete).own)
      (h.concrete hconcrete).seeded hconcrete W i hx hv
  | write i t =>
    have hsettled := r.withLayouts.settled_withTypes p.body _ hx
    refine ⟨h.guarded henv hplaced.1, hsettled, fun v hv hconcrete => ?_⟩
    have hmerge :=
      hsettled v _ hv (Array.getElem?_eq_getElem (Analysis.lt_size_of_isConcrete hconcrete))
    refine ValueType.eq_of_merge_eq hconcrete hplaced.2 ?_
    rw [Analysis.var, Array.getElem?_eq_getElem (Analysis.lt_size_of_isConcrete hconcrete)]
    exact hmerge
  | caught i =>
    obtain ⟨v, hv, hvalid⟩ := hplaced
    have hkind : (r.var v).kind = .local := hvalid.kind
    exact h.receives hv (by rw [hkind]; decide) (hsynthetic hvalid.synthetic)
  | held id =>
    obtain ⟨v, hv, hvalid⟩ := hplaced
    intro w hw
    obtain rfl := Option.some.inj (hv.symm.trans ((hsame.denoted? (.holder id)).symm.trans hw))
    obtain ⟨_, _, hvar⟩ := hsame.var v
    refine ⟨hsynthetic hvalid.synthetic, ?_⟩
    have hkind : (r.var v).kind = .local := hvalid.kind
    rw [hvar]
    exact hkind ▸ (by decide : VariableKind.local ≠ .withScope)
  | declared i =>
    obtain ⟨v, hv, howns, hholds⟩ := hplaced
    refine h.receives (by rw [Analysis.reference?, hv]; rfl) (fun hkind => ?_)
      (h.not_isConcrete_of_holdsFunction hholds)
    have := declarableKinds_subset _ (List.mem_cons_of_mem _ howns.kind)
    simp [hkind] at this
  | called id => exact h.receivesOnCall id

end ScriptEngine
