import ScriptEngine.Proofs.Analysis.Assignment
import ScriptEngine.Proofs.Code.Initialization
import ScriptEngine.Proofs.Compile.Bodies
import ScriptEngine.Proofs.Script.Piece

/-!
# Types of compiled expressions

The code of an expression yields values of the type that is inferred for the expression, and what is
written to a slot for bare results is a value that the slot can hold.  A variable of a concrete type
is found in a slot of its own wherever its name stands.

## Main definitions

* `AllSound` : the types of variables can be relied upon at some sites.
* `Compile.Named` : what a name is compiled to.
* `Compile.HasType` : all values that code yields are of a type.

## Main statements

* `Compile.hasType_expr` : the values of an expression are of its type.
-/

namespace ScriptEngine

/-! ### Sound sites -/

section

variable {a : Analysis} {x : TypeSite} {sites sites' : List TypeSite}

/-- The types of variables can be relied upon at some sites. -/
def AllSound (a : Analysis) (sites : List TypeSite) : Prop :=
  ∀ x ∈ sites, x.Sound a

theorem allSound_nil : AllSound a [] := nofun

theorem allSound_cons : AllSound a (x :: sites) ↔ x.Sound a ∧ AllSound a sites :=
  List.forall_mem_cons

theorem allSound_append : AllSound a (sites ++ sites') ↔ AllSound a sites ∧ AllSound a sites' :=
  List.forall_mem_append

end

/-! ### Values of operators -/

section

variable {call : Caller} {x y z : Value} {s t : ValueType}

/-- A value of a concrete type is primitive already. -/
theorem Run.fits_toPrimitive {hint : Hint} (ht : t.IsConcrete) (hx : x.Fits t)
    (h : (Run.toPrimitive call x hint).Yields z) : z.Fits t := by
  cases t with
  | double | boolean | string =>
    obtain ⟨x, rfl⟩ := hx
    exact ⟨x, h.of_pure⟩
  | unset | unknown | object => trivial

theorem Run.fits_sum (h : (Run.sum call x y).Yields z) (hx : x.Fits s) (hy : y.Fits t) :
    z.Fits (BinaryOp.add.resultType s t) := by
  obtain ⟨p, hp, h⟩ := h.of_bind
  obtain ⟨q, hq, h⟩ := h.of_bind
  simp only [BinaryOp.resultType]
  split
  · next hstring =>
    simp only [Bool.or_eq_true, decide_eq_true_eq] at hstring
    rcases hstring with rfl | rfl
    · obtain ⟨text, rfl⟩ := Run.fits_toPrimitive (by decide) hx hp
      exact ⟨_, h.of_pure⟩
    · obtain ⟨text, rfl⟩ := Run.fits_toPrimitive (by decide) hy hq
      cases p <;> exact ⟨_, h.of_pure⟩
  · split
    · next hnumeric =>
      -- only numbers and booleans are left, and these are added
      have hconcrete {t : ValueType} (ht : t.isNumeric = true) : t.IsConcrete := by
        revert ht
        cases t <;> decide
      obtain ⟨hs, ht⟩ := Bool.and_eq_true_iff.mp hnumeric
      have hp := Run.fits_toPrimitive (hconcrete hs) hx hp
      have hq := Run.fits_toPrimitive (hconcrete ht) hy hq
      cases s <;> cases hs <;> cases t <;> cases ht <;> obtain ⟨a, rfl⟩ :=
        hp <;> obtain ⟨b, rfl⟩ := hq <;>
          exact ⟨_, h.of_pure⟩
    · trivial

/-- A binary operator gives a value of the type that follows from those of its operands. -/
theorem Run.fits_binary {op : BinaryOp} (h : (Run.binary call op x y).Yields z) (hx : x.Fits s)
    (hy : y.Fits t) : z.Fits (op.resultType s t) := by
  cases op with
  | add => exact Run.fits_sum h hx hy
  | _ =>
    obtain ⟨a, -, h⟩ := h.of_bind
    exact ⟨a, h.of_pure⟩

/-- A unary operator gives a value of its type. -/
theorem Run.fits_unary {op : UnaryOp} (h : (Run.unary call op x).Yields z) :
    z.Fits op.resultType := by
  cases op with
  | minus | plus | bitwiseNot | typeOf =>
    obtain ⟨a, -, h⟩ := h.of_bind
    exact ⟨_, h.of_pure⟩
  | logicalNot | delete => exact ⟨_, h.of_pure⟩
  | void => trivial

theorem Value.Fits.join_left (h : z.Fits s) : z.Fits (s.join t) := by
  unfold ValueType.join
  split
  · exact h
  · trivial

theorem Value.Fits.join_right (h : z.Fits t) : z.Fits (s.join t) := by
  unfold ValueType.join
  split
  · next heq => exact heq ▸ h
  · trivial

/-- Code yields values of the type that has its representation. -/
theorem TypedCode.fits_of_rep {host : Host} {c : TypedCode} (h : c.rep = .ofValueType t)
    (hz : (c.value host).Yields z) : z.Fits t := by
  obtain ⟨ρ, code⟩ := c
  dsimp only at h
  subst h
  obtain ⟨x, -, hz⟩ := hz.of_bind
  rw [hz.of_pure]
  exact Rep.fits_box x

end

/-! ### Names -/

namespace Analysis

variable {a : Analysis} {i : Identifier} {v : VariableId}

theorem nameType_of_isConcrete (hi : a.reference? i = some v)
    (hv : (a.var v).valueType.IsConcrete) :
    a.nameType i = (a.var v).valueType := by
  unfold nameType var
  rw [hi, Option.bind_some, Array.getElem?_eq_getElem (lt_size_of_isConcrete hv)]
  rfl

theorem isConcrete_of_nameType (h : (a.nameType i).IsConcrete) :
    ∃ v, a.reference? i = some v ∧ (a.var v).valueType.IsConcrete := by
  unfold nameType at h
  split at h
  · next x hx =>
    obtain ⟨v, hv, hx⟩ := Option.bind_eq_some_iff.mp hx
    refine ⟨v, hv, ?_⟩
    rw [var, hx]
    exact h
  · exact absurd h (by decide)

end Analysis

namespace Compile

variable {α : Type} {ctx : BodyContext} {given : BodyState} {i : Identifier} {v : VariableId}
  {acc : Access} {x : Storage}

theorem Steady.at {Q : BodyState → α → Prop} {x : Compile α} {a : α} (h : Steady ctx Q x)
    (hx : x given = .ok (a, given)) : Q given a :=
  ((h hx).2 (.refl given)).2

theorem Ensures.at {R : BodyState → α → Prop} {x : Compile α} {a : α} (h : Ensures ctx R x)
    (hs : given.Sound ctx) (hx : x given = .ok (a, given)) : R given a :=
  (h hx).2 hs (.refl given)

/-- A variable that is kept in a typed slot has a concrete type. -/
theorem isConcrete_of_allotted (hs : given.Sound ctx) (hx : Allotted ctx given v x)
    (ht : x.IsTyped) :
    (ctx.analysis.var v).valueType.IsConcrete := by
  cases x with
  | slot ρ index =>
    unfold ValueType.IsConcrete
    rw [← hs.kind v _ hx]
    exact ht
  | global | parameter | field => exact ht.elim

theorem steady_allotted (v : VariableId) :
    Steady ctx (fun t b => Allotted ctx t v b.storage) (binding ctx v) :=
  (steady_storage v).bind fun _ => .pure fun _ h => h

theorem steady_allottedAll : ∀ vs : List VariableId,
    Steady ctx (fun t bs => ∀ b ∈ bs, ∃ v ∈ vs, Allotted ctx t v b.storage) (bindings ctx vs)
  | [] => .pure nofun
  | v :: rest =>
    (steady_allotted v).bind fun b => (steady_allottedAll rest).bind fun bs =>
      .pure fun t hbs hb => by
      refine List.forall_mem_cons.mpr ⟨⟨v, List.mem_cons_self, hb⟩, fun b' hb' => ?_⟩
      obtain ⟨w, hw, hallotted⟩ := hbs b' hb'
      exact ⟨w, List.mem_cons_of_mem _ hw, hallotted⟩

/-- The storages behind the name of a variable: its own one, or, if `with` statements hide it, those
of their objects and of the variable that is meant otherwise. -/
def Opens (ctx : BodyContext) (t : BodyState) (v : VariableId) (acc : Access) : Prop :=
  ((ctx.analysis.var v).kind ≠ .withScope ∧ acc.scopes = [] ∧
    Allotted ctx t v acc.binding.storage) ∨
  ((ctx.analysis.var v).kind = .withScope ∧
    (∀ b ∈ acc.scopes, ∃ w ∈ (ctx.analysis.var v).withChain, Allotted ctx t w.1 b.storage) ∧
    ∃ target, (ctx.analysis.var v).fallback = some target ∧
      Allotted ctx t target acc.binding.storage)

theorem steady_opens (v : VariableId) :
    Steady ctx (fun t acc => Opens ctx t v acc) (access ctx v) := by
  unfold access
  extract_lets x
  split
  · next hkind =>
    split
    · next target hfallback =>
      refine (steady_allottedAll _).bind fun scopes => (steady_allotted target).bind fun b => .pure
        fun t hb hscopes => .inr ⟨hkind, fun b' hb' => ?_, target, hfallback, hb⟩
      obtain ⟨w, hw, hallotted⟩ := hscopes b' hb'
      obtain ⟨w', hw', rfl⟩ := List.mem_map.mp hw
      exact ⟨w', hw', hallotted⟩
    · exact .throw _
  · next hkind => exact (steady_allotted v).bind fun b => .pure fun t hb => .inl ⟨hkind, rfl, hb⟩

/-- The name of a variable of its own body that can be assigned is a slot. -/
theorem steady_ownSlot (hkind : (ctx.analysis.var v).kind = .local)
    (hfield : (ctx.analysis.var v).field = none)
    (himmutable : (ctx.analysis.var v).immutable = false) :
    Steady ctx (fun t acc => ∃ slot, t.slot? v = some slot ∧
      acc = ⟨acc.name, [], ⟨.slot slot.rep slot.index, none⟩⟩) (access ctx v) := by
  have hbinding : Steady ctx (fun t b => ∃ slot, t.slot? v = some slot ∧
      b = ⟨.slot slot.rep slot.index, none⟩) (binding ctx v) := by
    unfold binding storage
    simp only [hkind, hfield, himmutable, Bool.false_eq_true, if_false]
    split
    · refine Steady.bind (Q := fun t x => ∃ slot, t.slot? v = some slot ∧
        x = .slot slot.rep slot.index)
        ((steady_slot v).bind fun slot => .pure fun t hslot => ⟨slot, hslot, rfl⟩) fun x =>
          .pure fun t hx => ?_
      obtain ⟨slot, hslot, rfl⟩ := hx
      exact ⟨slot, hslot, rfl⟩
    · exact .throw _
  unfold access
  simp only [hkind]
  refine hbinding.bind fun b => .pure fun t hb => ?_
  obtain ⟨slot, hslot, rfl⟩ := hb
  exact ⟨slot, hslot, rfl⟩

/-- What a name is compiled to: a slot of its own if its variable has a concrete type, and otherwise
no typed slot. -/
structure Named (ctx : BodyContext) (given : BodyState) (i : Identifier) (acc : Access) : Prop where
  scopes : ∀ b ∈ acc.scopes, ¬ b.storage.IsTyped
  binding : acc.binding.storage.IsTyped →
    ∃ v, ctx.analysis.reference? i = some v ∧ (ctx.analysis.var v).valueType.IsConcrete
  slot : ∀ v, ctx.analysis.reference? i = some v → (ctx.analysis.var v).valueType.IsConcrete → ∃ k,
    given.slot? v = some ⟨.ofValueType (ctx.analysis.var v).valueType, k⟩ ∧
      acc = ⟨acc.name, [], ⟨.slot (.ofValueType (ctx.analysis.var v).valueType) k, none⟩⟩

theorem named_of_identifier (hs : given.Sound ctx) (hi : ctx.analysis.Guarded i)
    (h : identifier ctx i given = .ok (acc, given)) : Named ctx given i acc := by
  unfold identifier at h
  cases hv : ctx.analysis.reference? i with
  | none =>
    rw [hv] at h
    cases h
  | some v =>
    rw [hv] at h
    have hopens := (steady_opens v).at h
    refine ⟨fun b hb ht => ?_, fun ht => ?_, fun w hw hconcrete => ?_⟩
    · rcases hopens with ⟨-, hscopes, -⟩ | ⟨hkind, hscopes, -⟩
      · rw [hscopes] at hb
        cases hb
      · obtain ⟨w, hw, hallotted⟩ := hscopes b hb
        exact hi.scopes v hv hkind w hw (isConcrete_of_allotted hs hallotted ht)
    · rcases hopens with ⟨-, -, hallotted⟩ | ⟨-, -, target, htarget, hallotted⟩
      · exact ⟨v, hv, isConcrete_of_allotted hs hallotted ht⟩
      · exact absurd (isConcrete_of_allotted hs hallotted ht) (hi.fallback v target hv htarget)
    · obtain rfl := Option.some.inj (hv.symm.trans hw)
      obtain ⟨hkind, hfield, himmutable⟩ := hi.slot v hv hconcrete
      obtain ⟨⟨ρ, k⟩, hslot, hacc⟩ := (steady_ownSlot hkind hfield himmutable).at h
      obtain rfl : ρ = _ := hs.kind v _ hslot
      exact ⟨k, hslot, hacc⟩

/-- The name of a variable without a concrete type is no typed slot. -/
theorem not_isTyped_of_access (hs : given.Sound ctx)
    (hv : ¬ (ctx.analysis.var v).valueType.IsConcrete)
    (hkind : (ctx.analysis.var v).kind ≠ .withScope) (h : access ctx v given = .ok (acc, given)) :
    acc.scopes = [] ∧ ¬ acc.binding.storage.IsTyped := by
  rcases (steady_opens v).at h with ⟨-, hscopes, hallotted⟩ | ⟨hscope, -⟩
  · exact ⟨hscopes, fun ht => hv (isConcrete_of_allotted hs hallotted ht)⟩
  · exact absurd hscope hkind

/-- What holds later, with the places of variables being as they should. -/
theorem Ensures.sound {R : BodyState → α → Prop} {x : Compile α} (h : Ensures ctx R x) :
    Ensures ctx (fun given a => given.Sound ctx ∧ R given a) x := by
  intro s a s' hx
  obtain ⟨hgrows, hlater⟩ := h hx
  exact ⟨hgrows, fun hs given hgiven => ⟨(hgrows.trans hgiven).sound hs, hlater hs hgiven⟩⟩

theorem ensures_named (hi : ctx.analysis.Guarded i) :
    Ensures ctx (fun given acc => identifier ctx i given = .ok (acc, given) ∧ Named ctx given i acc)
      (identifier ctx i) :=
  (Ensures.of_steady (steady_identifier i)).sound.mono fun _ _ ⟨hs, h, _⟩ =>
    ⟨h, named_of_identifier hs hi h⟩

/-- All values that code yields are of a type. -/
def HasType (c : TypedCode) (t : ValueType) : Prop :=
  ∀ host v, (c.value host).Yields v → v.Fits t

namespace Named

variable {ρ : Rep} {k : Nat} {t : ValueType} {u : Value} {host : Host}

theorem not_isTyped (h : Named ctx given i acc) (hi : ctx.analysis.Receives i) :
    ¬ acc.binding.storage.IsTyped := by
  intro ht
  obtain ⟨v, hv, hconcrete⟩ := h.binding ht
  refine hi.2 ?_
  rwa [Analysis.nameType_of_isConcrete hv hconcrete]

/-- A typed slot is read and written without asking objects, and may be assigned. -/
theorem direct (h : Named ctx given i acc) (ht : acc.binding.storage.IsTyped) :
    acc.scopes = [] ∧ acc.binding.constant = none := by
  obtain ⟨v, hv, hconcrete⟩ := h.binding ht
  obtain ⟨k, -, hacc⟩ := h.slot v hv hconcrete
  rw [hacc]
  exact ⟨rfl, rfl⟩

theorem scopes_of_nameType (h : Named ctx given i acc) (ht : (ctx.analysis.nameType i).IsConcrete) :
    acc.scopes.isEmpty = true := by
  obtain ⟨v, hv, hconcrete⟩ := Analysis.isConcrete_of_nameType ht
  obtain ⟨k, -, hacc⟩ := h.slot v hv hconcrete
  rw [hacc]
  rfl

/-- A name is read as a value of its type. -/
theorem hasType_load (h : Named ctx given i acc) (lenient : Bool) :
    HasType (acc.load lenient) (ctx.analysis.nameType i) := by
  intro host u hu
  by_cases hconcrete : (ctx.analysis.nameType i).IsConcrete
  · obtain ⟨v, hv, hconcrete⟩ := Analysis.isConcrete_of_nameType hconcrete
    obtain ⟨k, -, hacc⟩ := h.slot v hv hconcrete
    rw [hacc] at hu
    rw [Analysis.nameType_of_isConcrete hv hconcrete]
    exact TypedCode.fits_of_rep rfl hu
  · exact Value.fits_of_not_concrete hconcrete

/-- The slot of a name can hold a value of the type that may be written to it. -/
theorem holds (h : Named ctx given i acc) (hi : ctx.analysis.Writes i t)
    (hstorage : acc.binding.storage = .slot ρ k) (hu : u.Fits t) : ρ.Holds u := by
  by_cases hρ : ρ = .boxed
  · subst hρ
    rfl
  · obtain ⟨v, hv, hconcrete⟩ := h.binding (by rw [hstorage]; exact hρ)
    obtain ⟨k', -, hacc⟩ := h.slot v hv hconcrete
    rw [hacc] at hstorage
    cases hstorage
    rw [hi.type v hv hconcrete] at hu
    exact hu.holds

/-- What is written to a name is yielded as it is. -/
theorem hasType_store (h : Named ctx given i acc) {c : TypedCode} (hi : ctx.analysis.Writes i t)
    (hc : HasType c t) : HasType (acc.store c) t := by
  intro host u hu
  rw [value_store acc c fun ρ k _ hbinding x hx =>
    h.holds hi (by rw [hbinding]) (hc host x hx)] at hu
  obtain ⟨p, -, hu⟩ := hu.of_bind
  obtain ⟨x, hx, hu⟩ := hu.of_bind
  obtain ⟨_, -, hu⟩ := hu.of_bind
  rw [hu.of_pure]
  exact hc host x hx

end Named

/-! ### Expressions -/

theorem hasType_binary (op : BinaryOp) {l r : TypedCode} {s t : ValueType} (hl : HasType l s)
    (hr : HasType r t) : HasType (specializeBinary op l r) (op.resultType s t) := by
  intro host v hv
  rw [value_specializeBinary] at hv
  obtain ⟨x, hx, hv⟩ := hv.of_bind
  obtain ⟨y, hy, hv⟩ := hv.of_bind
  exact Run.fits_binary hv.of_lift (hl host x hx) (hr host y hy)

theorem hasType_unary (op : UnaryOp) (c : TypedCode) :
    HasType (specializeUnary op c) op.resultType := by
  intro host v hv
  rw [value_specializeUnary] at hv
  obtain ⟨x, -, hv⟩ := hv.of_bind
  exact Run.fits_unary hv.of_lift

theorem hasType_logical (op : LogicalOp) {l r : TypedCode} {s t : ValueType} (hl : HasType l s)
    (hr : HasType r t) : HasType (logicalCode op l r) (s.join t) := by
  intro host v hv
  rw [value_logicalCode] at hv
  obtain ⟨x, hx, hv⟩ := hv.of_bind
  split at hv
  · exact (hr host v hv).join_right
  · rw [hv.of_pure]
    exact (hl host x hx).join_left

theorem hasType_conditional (test : Code .boolean) {c d : TypedCode} {s t : ValueType}
    (hc : HasType c s) (hd : HasType d t) : HasType (conditionalCode test c d) (s.join t) := by
  intro host v hv
  rw [value_conditionalCode] at hv
  obtain ⟨b, -, hv⟩ := hv.of_bind
  split at hv
  · exact (hc host v hv).join_left
  · exact (hd host v hv).join_right

theorem hasType_stepCode (op : UpdateOp) (before : Bool) (place : Reference) :
    HasType (stepCode op before place) .double := by
  intro host v hv
  rw [value_stepCode] at hv
  obtain ⟨p, -, hv⟩ := hv.of_bind
  obtain ⟨old, -, hv⟩ := hv.of_bind
  obtain ⟨x, -, hv⟩ := hv.of_bind
  obtain ⟨_, -, hv⟩ := hv.of_bind
  exact ⟨_, hv.of_pure⟩

/-- Any code has a type that is not concrete. -/
theorem hasType_of_not_concrete {c : TypedCode} {t : ValueType} (h : ¬ t.IsConcrete) :
    HasType c t :=
  fun _ _ _ => Value.fits_of_not_concrete h

theorem hasType_literal (l : Literal) : HasType l.code l.valueType := by
  cases l with
  | null | regularExpression => exact hasType_of_not_concrete fun h => h rfl
  | boolean | string | number => exact fun host v hv => TypedCode.fits_of_rep rfl hv

/-- What is written to a property is yielded as it is. -/
theorem hasType_store_reference (r : Reference) {c : TypedCode} {t : ValueType} (hc : HasType c t) :
    HasType ⟨.boxed, .store r (c.inRep .boxed)⟩ t := by
  intro host v hv
  obtain ⟨x, hx, hv⟩ := hv.of_bind
  obtain rfl := hv.of_pure
  rw [Code.eval] at hx
  obtain ⟨p, -, hx⟩ := hx.of_bind
  obtain ⟨y, hy, hx⟩ := hx.of_bind
  obtain ⟨_, -, hx⟩ := hx.of_bind
  obtain rfl := hx.of_pure
  rw [TypedCode.eval_inRep_boxed] at hy
  exact hc host _ hy

/-- A compound assignment yields what its operator gives. -/
theorem hasType_combine (r : Reference) (op : BinaryOp) {c : TypedCode} {s t : ValueType}
    (hold : ∀ u : Value, u.Fits s) (hc : HasType c t) :
    HasType ⟨.boxed, .combine r op (c.inRep .boxed)⟩ (op.resultType s t) := by
  intro host v hv
  obtain ⟨x, hx, hv⟩ := hv.of_bind
  obtain rfl := hv.of_pure
  rw [Code.eval] at hx
  obtain ⟨p, -, hx⟩ := hx.of_bind
  obtain ⟨old, -, hx⟩ := hx.of_bind
  obtain ⟨y, hy, hx⟩ := hx.of_bind
  obtain ⟨z, hz, hx⟩ := hx.of_bind
  obtain ⟨_, -, hx⟩ := hx.of_bind
  obtain rfl := hx.of_pure
  rw [TypedCode.eval_inRep_boxed] at hy
  exact Run.fits_binary hz.of_lift (hold old) (hc host y hy)

theorem hasType_sequenceCode (a : Analysis) :
    ∀ {first : TypedCode} {rest : List TypedCode} {t : ValueType}
    {es : List Expr}, HasType first t → List.Forall₂ (fun c e => HasType c (e.type a)) rest es →
      HasType (sequenceCode first rest) (lastType a t es)
  | _, _, _, _, h, .nil => h
  | _, _, _, _, _, .cons hnext hrest => by
    intro host v hv
    rw [value_sequenceCode_cons] at hv
    obtain ⟨_, -, hv⟩ := hv.of_bind
    exact hasType_sequenceCode a hnext hrest host v hv

/-- Code of some expression whose type is not concrete. -/
theorem ensures_untyped {e : Expr} (h : ¬ (e.type ctx.analysis).IsConcrete) :
    Ensures ctx (fun _ c => HasType c (e.type ctx.analysis)) (expr ctx e) :=
  (Ensures.of_steady (steady_expr e)).mono fun _ _ _ => hasType_of_not_concrete h

mutual

/-- The values of an expression are of its type. -/
theorem hasType_expr (W : Set VariableId) :
    ∀ e : Expr, AllSound ctx.analysis (e.typeSites ctx.analysis W) →
    Ensures ctx (fun _ c => HasType c (e.type ctx.analysis)) (expr ctx e)
  | .literal _ value, _ => .pure fun _ => hasType_literal value
  | .identifier i, h => by
    have hi := (allSound_cons.mp h).1
    exact (ensures_named hi.guarded).bind fun acc => .pure fun _ hacc => hacc.2.hasType_load false
  | .this _, _ | .array .., _ | .object .., _ | .function _, _ | .call .., _ | .construct .., _
  | .member _, _ => ensures_untyped fun h => h rfl
  | .unary _ op argument, h => by
    have hplain : Ensures ctx (fun _ c => HasType c op.resultType)
        (do return specializeUnary op (← expr ctx argument)) :=
      (Ensures.of_steady (steady_expr argument)).bind fun c => .pure fun _ _ => hasType_unary op c
    have hboolean (place : Reference) : HasType ⟨.boolean, .delete place⟩ .boolean :=
      fun host v hv => TypedCode.fits_of_rep rfl hv
    cases op with
    | delete =>
      cases argument with
      | identifier i =>
        exact (Ensures.of_steady (steady_identifier i)).bind fun acc => .pure fun _ _ => hboolean _
      | member m =>
        exact (Ensures.of_steady (steady_member m)).bind fun r => .pure fun _ _ => hboolean _
      | _ => exact hplain
    | typeOf =>
      cases argument with
      | identifier i =>
        exact (Ensures.of_steady (steady_identifier i)).bind fun acc => .pure fun _ _ =>
          hasType_unary _ _
      | _ => exact hplain
    | _ => exact hplain
  | .update _ op t before, _ =>
    (Ensures.of_steady (steady_target t)).bind fun place => .pure fun _ _ =>
      hasType_stepCode op before place
  | .binary _ op left right, h => by
    obtain ⟨hl, hr⟩ := allSound_append.mp h
    exact (hasType_expr W left hl).bind fun _ => (hasType_expr W right hr).bind fun _ =>
      .pure fun _ hr hl => hasType_binary op hl hr
  | .logical _ op left right, h => by
    obtain ⟨hl, hr⟩ := allSound_append.mp h
    exact (hasType_expr W left hl).bind fun _ => (hasType_expr W right hr).bind fun _ =>
      .pure fun _ hr hl => hasType_logical op hl hr
  | .assign _ .plain (.identifier i) value, h => by
    obtain ⟨hvalue, hwrite⟩ := allSound_append.mp h
    have hi := (allSound_cons.mp hwrite).1
    exact (ensures_named hi.guarded).bind fun acc => (hasType_expr W value hvalue).bind fun c =>
      .pure fun _ hc hacc => hacc.2.hasType_store hi hc
  | .assign _ .plain (.member m) value, h => by
    obtain ⟨-, hvalue⟩ := allSound_append.mp h
    refine (Ensures.of_steady (steady_member m)).bind fun r =>
      (hasType_expr W value hvalue).bind fun c =>
      .pure fun _ hc _ => ?_
    exact hasType_store_reference r hc
  | .assign _ (.compound op) (.identifier i) value, h => by
    obtain ⟨hread, h⟩ := allSound_cons.mp h
    obtain ⟨hvalue, hwrite⟩ := allSound_append.mp h
    have hi := (allSound_cons.mp hwrite).1
    refine (ensures_named hi.guarded).bind fun acc => (hasType_expr W value hvalue).bind fun c => ?_
    split
    · exact .pure fun _ hc hacc =>
        hacc.2.hasType_store hi (hasType_binary op (hacc.2.hasType_load false) hc)
    · next hscopes =>
      refine .pure fun _ hc hacc =>
        hasType_combine _ op (fun u => Value.fits_of_not_concrete fun hconcrete => ?_) hc
      exact hscopes (hacc.2.scopes_of_nameType hconcrete)
  | .assign _ (.compound op) (.member m) value, h => by
    obtain ⟨-, hvalue⟩ := allSound_append.mp h
    exact (hasType_expr W value hvalue).bind fun c =>
      (Ensures.of_steady (steady_member m)).bind fun r =>
      .pure fun _ _ hc => hasType_combine r op (fun _ => trivial) hc
  | .conditional _ test consequent alternate, h => by
    obtain ⟨htest, h⟩ := allSound_append.mp h
    obtain ⟨hc, ha⟩ := allSound_append.mp h
    exact (Ensures.of_steady (steady_expr test)).bind fun t =>
      (hasType_expr W consequent hc).bind fun c =>
      (hasType_expr W alternate ha).bind fun d => .pure fun _ hd hc _ => hasType_conditional _ hc hd
  | .sequence _ expressions, h => by
    refine (hasType_typedList W expressions h).bind fun cs => ?_
    cases cs with
    | nil =>
      refine .pure fun _ hcs => ?_
      cases hcs
      exact hasType_of_not_concrete fun h => h rfl
    | cons first rest =>
      refine .pure fun _ hcs => ?_
      cases hcs with
      | cons hfirst hrest =>
        have hlast := hasType_sequenceCode ctx.analysis hfirst hrest
        exact hlast
termination_by structural x => x

/-- The values of several expressions are of their types. -/
theorem hasType_typedList (W : Set VariableId) : ∀ es : List Expr,
    AllSound ctx.analysis (exprTypeSites ctx.analysis W es) →
      Ensures ctx (fun _ cs => List.Forall₂ (fun c e => HasType c (e.type ctx.analysis)) cs es)
        (typedList ctx es)
  | [], _ => .pure fun _ => .nil
  | e :: rest, h => by
    obtain ⟨he, hrest⟩ := allSound_append.mp h
    exact (hasType_expr W e he).bind fun c => (hasType_typedList W rest hrest).bind fun cs =>
      .pure fun _ hcs hc => .cons hc hcs
termination_by structural x => x

end

end Compile

end ScriptEngine
