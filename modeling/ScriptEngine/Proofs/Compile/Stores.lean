import ScriptEngine.Proofs.Compile.Typing

/-!
# Writes of typed slots

Every write of a slot for bare results in the code of a body comes from a piece of the body, and a
piece writes values only that the slot can hold.  A slot is read where its variable was written
before.

## Main definitions

* `Piece.Stores` : what a piece of a body writes, and where.
* `Piece.Known` : what is known of a piece of a body that was compiled.
* `Source.noted` : what is noted of a value that is written to a slot.
* `Compile.Typed` : effects on typed slots that come from pieces.

## Main statements

* `Piece.Known.holds` : a slot can hold what is written to it.
* `Compile.typed_expr`, `Compile.typed_stmt` : the effects of expressions and statements.
-/

namespace ScriptEngine

/-! ### Sources -/

/-- What code yields before it takes the representation of a slot. -/
def Code.source {ρ : Rep} : Code ρ → Source
  | .unary (.convert σ _) operand => .code ⟨σ, operand⟩
  | c => .code ⟨ρ, c⟩

/-- What is noted of a value that is written to a slot. -/
def Source.noted (ρ : Rep) : Source → Source
  | .code c => (c.inRep ρ).source
  | source => source

theorem Code.source_of_plain {ρ : Rep} {c : Code ρ}
    (h : ∀ (σ : Rep) (operand : Code σ), c = .unary (.convert σ ρ) operand → False) :
    c.source = .code ⟨ρ, c⟩ := by
  rw [Code.source]
  exact h

theorem Code.effects_storeSlot_eq {ρ : Rep} (index : Nat) (value : Code ρ) :
    (Code.storeSlot ρ index value).effects = value.effects ++
    [.write (.slot ρ index) value.source] := by
  by_cases hvalue : ∃ σ operand, value = .unary (.convert σ ρ) operand
  · obtain ⟨σ, operand, rfl⟩ := hvalue
    rw [Code.effects]
    rfl
  · have hplain (σ : Rep) (operand : Code σ) (heq : value = .unary (.convert σ ρ) operand) :
        False :=
      hvalue ⟨σ, operand, heq⟩
    rw [Code.effects_storeSlot hplain, Code.source_of_plain hplain]

theorem TypedCode.yields_of_gives {host : Host} {c : TypedCode} {v : Value}
    (h : (Source.code c).Gives host v) : (c.value host).Yields v := by
  obtain ⟨x, ⟨s, s', hx⟩, rfl⟩ := h
  refine ⟨s, s', ?_⟩
  change Exec.andThen (c.code.eval host) _ s = _
  unfold Exec.andThen
  rw [hx]
  rfl

/-! ### Pieces -/

/-- What a piece of a body writes to a name, when it is compiled with the places that were given. -/
inductive Piece.Stores (ctx : BodyContext) (given : BodyState) : Piece → Access → Source → Prop
  | assigned {span : Span} {i : Identifier} {value : Expr} {acc : Access} {c : TypedCode}
      (place : Compile.identifier ctx i given = .ok (acc, given))
      (code : Compile.expr ctx value given = .ok (c, given)) :
      Stores ctx given (.expr (.assign span .plain (.identifier i) value)) acc (.code c)
  | combined {span : Span} {op : BinaryOp} {i : Identifier} {value : Expr} {acc : Access}
    {c : TypedCode}
      (place : Compile.identifier ctx i given = .ok (acc, given))
      (code : Compile.expr ctx value given = .ok (c, given)) (scopes : acc.scopes.isEmpty = true) :
      Stores ctx given (.expr (.assign span (.compound op) (.identifier i) value)) acc
        (.code (specializeBinary op (acc.load false) c))
  | hidden {span : Span} {op : BinaryOp} {i : Identifier} {value : Expr} {acc : Access}
      (place : Compile.identifier ctx i given = .ok (acc, given))
        (scopes : acc.scopes.isEmpty = false) :
      Stores ctx given (.expr (.assign span (.compound op) (.identifier i) value)) acc .any
  | stepped {span : Span} {op : UpdateOp} {i : Identifier} {before : Bool} {acc : Access}
      (place : Compile.identifier ctx i given = .ok (acc, given)) :
      Stores ctx given (.expr (.update span op (.identifier i) before)) acc .number
  | key {i : Identifier} {acc : Access}
    (place : Compile.identifier ctx i given = .ok (acc, given)) :
      Stores ctx given (.key i) acc .string
  | caught {param : Identifier} {acc : Access}
      (place : Compile.identifier ctx param given = .ok (acc, given)) :
        Stores ctx given (.caught param) acc .any
  | declared {f : Func} {name : Identifier} {acc : Access} (names : f.identifier? = some name)
      (place : Compile.identifier ctx name given = .ok (acc, given)) :
        Stores ctx given (.declared f) acc .any
  | held {id : NodeId} {v : VariableId} {acc : Access}
    (holder : ctx.analysis.withVariable? id = some v)
      (place : Compile.access ctx v given = .ok (acc, given)) : Stores ctx given (.held id) acc .any
  | self {v : VariableId} {acc : Access} (binding : (ctx.analysis.body ctx.id).selfBinding = some v)
      (place : Compile.access ctx v given = .ok (acc, given)) :
        Stores ctx given .self acc.initializer .any

/-- The types of variables can be relied upon where a function is declared and inside of it. -/
structure Func.Sound (a : Analysis) (f : Func) : Prop where
  receives : ∀ name, f.identifier? = some name → a.Receives name
  sites : AllSound a (f.typeSites a)

/-- What is known of a piece of a body that was compiled: the types of variables can be relied upon
there, and an expression has code. -/
def Piece.Known (ctx : BodyContext) (given : BodyState) : Piece → Prop
  | .expr e => (∃ W, AllSound ctx.analysis (e.typeSites ctx.analysis W)) ∧
    ∃ c, Compile.expr ctx e given = .ok (c, given)
  | .key i => ctx.analysis.Writes i .string
  | .caught i => ctx.analysis.Receives i
  | .declared f => f.Sound ctx.analysis
  | .held id => (TypeSite.held id).Sound ctx.analysis
  | .self => ctx.analysis.ReceivesOnCall ctx.id

section

variable {ctx : BodyContext} {given : BodyState} {acc : Access} {ρ : Rep} {k : Nat} {v : Value}
  {host : Host}

/-- A slot in which a variable without a concrete type is kept can hold any value. -/
theorem Rep.holds_of_not_isTyped {x : Storage} (h : ¬ x.IsTyped) (hx : x = .slot ρ k) :
    ρ.Holds v := by
  subst hx
  obtain rfl : ρ = .boxed := not_not.mp h
  rfl

/-- A slot can hold what a piece writes to it. -/
theorem Piece.Known.holds {p : Piece} {source : Source} (hs : given.Sound ctx)
    (h : p.Known ctx given) (hstores : p.Stores ctx given acc source)
    (hstorage : acc.binding.storage = .slot ρ k) (hv : source.Gives host v) : ρ.Holds v := by
  cases hstores with
  | assigned place code =>
    obtain ⟨⟨W, hsites⟩, -⟩ := h
    obtain ⟨hvalue, hwrite⟩ := allSound_append.mp hsites
    have hi := (allSound_cons.mp hwrite).1
    have hc := (Compile.hasType_expr W _ hvalue).at hs code
    exact (Compile.named_of_identifier hs hi.guarded place).holds hi hstorage
      (hc host v (TypedCode.yields_of_gives hv))
  | combined place code scopes =>
    obtain ⟨⟨W, hsites⟩, -⟩ := h
    obtain ⟨-, hsites⟩ := allSound_cons.mp hsites
    obtain ⟨hvalue, hwrite⟩ := allSound_append.mp hsites
    have hi := (allSound_cons.mp hwrite).1
    have hc := (Compile.hasType_expr W _ hvalue).at hs code
    have hacc := Compile.named_of_identifier hs hi.guarded place
    exact hacc.holds hi hstorage
      (Compile.hasType_binary _ (hacc.hasType_load false) hc host v (TypedCode.yields_of_gives hv))
  | hidden place scopes =>
    obtain ⟨⟨W, hsites⟩, -⟩ := h
    have hi := (allSound_cons.mp hsites).1
    have hacc := Compile.named_of_identifier hs hi.guarded place
    refine Rep.holds_of_not_isTyped (fun ht => ?_) hstorage
    rw [(hacc.direct ht).1] at scopes
    cases scopes
  | stepped place =>
    obtain ⟨⟨W, hsites⟩, -⟩ := h
    have hi := (allSound_cons.mp (allSound_cons.mp hsites).2).1
    exact (Compile.named_of_identifier hs hi.guarded place).holds hi hstorage hv
  | key place => exact (Compile.named_of_identifier hs h.guarded place).holds h hstorage hv
  | caught place =>
    exact Rep.holds_of_not_isTyped ((Compile.named_of_identifier hs h.1 place).not_isTyped h)
      hstorage
  | declared names place =>
    have hreceives := h.receives _ names
    exact Rep.holds_of_not_isTyped
      ((Compile.named_of_identifier hs hreceives.1 place).not_isTyped hreceives) hstorage
  | held holder place =>
    obtain ⟨hconcrete, hkind⟩ := h _ holder
    exact Rep.holds_of_not_isTyped (Compile.not_isTyped_of_access hs hconcrete hkind place).2
      hstorage
  | self binding place =>
    obtain ⟨hconcrete, hkind⟩ := h.selfBinding _ binding
    refine Rep.holds_of_not_isTyped
      (Compile.not_isTyped_of_access hs hconcrete (hkind ▸ nofun) place).2 hstorage

end

/-! ### Effects on typed slots -/

/-- The storages in which some variables are kept. -/
def BodyState.slotsOf (given : BodyState) (W : Set VariableId) : Set Storage :=
  {x | ∃ v ∈ W, ∃ slot, given.slot? v = some slot ∧ x = .slot slot.rep slot.index}

theorem BodyState.slotsOf_mono (given : BodyState) {W W' : Set VariableId} (h : W ⊆ W') :
    given.slotsOf W ⊆ given.slotsOf W' :=
  fun _ ⟨v, hv, hx⟩ => ⟨v, h hv, hx⟩

/-- A typed slot is read if its variable is one of those that were written, and it is written by a
piece.  A function is that of a piece. -/
def Effect.Permitted (ctx : BodyContext) (given : BodyState) (W : Set VariableId)
    (pieces : List Piece) :
    Effect → Prop
  | .read x => x.IsTyped → x ∈ given.slotsOf W
  | .write x source => ∀ ρ k, x = .slot ρ k → ρ ≠ .boxed → ∃ p ∈ pieces, ∃ acc src,
    p.Stores ctx given acc src ∧ acc.binding.storage = .slot ρ k ∧ source = src.noted ρ
  | .function g => ∃ p ∈ pieces, ∃ f, p.function? = some f ∧ Compile.func ctx.analysis f = .ok g

theorem Effect.Permitted.mono {ctx : BodyContext} {given : BodyState} {W W' : Set VariableId}
    {ps ps' : List Piece} {e : Effect} (h : e.Permitted ctx given W ps) (hW : W ⊆ W')
    (hps : ps ⊆ ps') :
    e.Permitted ctx given W' ps' := by
  cases e with
  | read x => exact fun ht => given.slotsOf_mono hW (h ht)
  | write x source =>
    intro ρ k hx hρ
    obtain ⟨p, hp, hstores⟩ := h ρ k hx hρ
    exact ⟨p, hps hp, hstores⟩
  | function g =>
    obtain ⟨p, hp, hmakes⟩ := h
    exact ⟨p, hps hp, hmakes⟩

namespace Compile

variable {ctx : BodyContext} {given : BodyState} {W W' : Set VariableId} {ps ps' : List Piece}
  {es es' : List Effect} {i : Identifier} {acc : Access} {c : TypedCode} {e : Expr}

/-- Effects come from pieces of which it is known that they were compiled. -/
structure Typed (ctx : BodyContext) (given : BodyState) (W : Set VariableId) (ps : List Piece)
    (es : List Effect) : Prop where
  effects : ∀ e ∈ es, e.Permitted ctx given W ps
  pieces : ∀ p ∈ ps, p.Known ctx given

/-- Effects of an expression, of whose inner pieces it is known that they were compiled. -/
structure TypedInside (ctx : BodyContext) (given : BodyState) (W : Set VariableId) (e : Expr)
    (es : List Effect) : Prop where
  effects : ∀ x ∈ es, x.Permitted ctx given W e.pieces
  pieces : ∀ p ∈ e.inner, p.Known ctx given

namespace Typed

theorem nil : Typed ctx given W [] [] := ⟨nofun, nofun⟩

theorem append (h : Typed ctx given W ps es) (h' : Typed ctx given W ps' es') :
    Typed ctx given W (ps ++ ps') (es ++ es') where
  effects := List.forall_mem_append.mpr
    ⟨fun e he => (h.effects e he).mono subset_rfl (List.subset_append_left ..),
      fun e he => (h'.effects e he).mono subset_rfl (List.subset_append_right ..)⟩
  pieces := List.forall_mem_append.mpr ⟨h.pieces, h'.pieces⟩

theorem mono (h : Typed ctx given W ps es) (hW : W ⊆ W') : Typed ctx given W' ps es :=
  ⟨fun e he => (h.effects e he).mono hW (List.Subset.refl _), h.pieces⟩

/-- The effects of a part of an expression. -/
theorem inner_permitted {p : Piece} (h : Typed ctx given W ps es) :
    ∀ e ∈ es, e.Permitted ctx given W (p :: ps) :=
  fun e he => (h.effects e he).mono subset_rfl (List.subset_cons_self ..)

/-- One more piece that was compiled. -/
theorem cons {p : Piece} (h : Typed ctx given W ps es) (hp : p.Known ctx given) :
    Typed ctx given W (p :: ps) es :=
  ⟨h.inner_permitted, List.forall_mem_cons.mpr ⟨hp, h.pieces⟩⟩

/-- The effects of the parts of an expression. -/
theorem inside (h : Typed ctx given W e.inner es) : TypedInside ctx given W e es :=
  ⟨h.inner_permitted, h.pieces⟩

/-- Effects on no typed slot, which come from no piece. -/
theorem plain (h : ∀ e ∈ es, e.Permitted ctx given W []) : Typed ctx given W [] es :=
  ⟨h, nofun⟩

end Typed

/-! ### Names and operators -/

theorem permitted_of_not_isTyped {x : Storage} (h : ¬ x.IsTyped) :
    (Effect.read x).Permitted ctx given W ps ∧ ∀ source,
    (Effect.write x source).Permitted ctx given W ps := by
  refine ⟨fun ht => absurd ht h, fun source ρ k hx hρ => absurd ?_ h⟩
  rw [hx]
  exact hρ

theorem permitted_scopes (h : ∀ b ∈ acc.scopes, ¬ b.storage.IsTyped) :
    ∀ e ∈ acc.effects, e.Permitted ctx given W ps := by
  intro e he
  obtain ⟨b, hb, rfl⟩ := List.mem_map.mp he
  exact (permitted_of_not_isTyped (h b hb)).1

theorem permitted_bindingWrites {b : Binding} {source : Source}
    (h : (Effect.write b.storage source).Permitted ctx given W ps) :
    ∀ e ∈ b.writes source, e.Permitted ctx given W ps := by
  unfold Binding.writes
  split
  · exact List.forall_mem_singleton.mpr h
  · exact nofun

theorem permitted_store (hscopes : ∀ b ∈ acc.scopes, ¬ b.storage.IsTyped)
    (hbinding : acc.binding.storage.IsTyped → acc.scopes = [] ∧ acc.binding.constant = none ∧
      ∃ p ∈ ps, p.Stores ctx given acc (.code c))
    (hc : ∀ e ∈ c.effects, e.Permitted ctx given W ps) :
    ∀ e ∈ (acc.store c).effects, e.Permitted ctx given W ps := by
  unfold Access.store
  split
  · next name ρ k =>
    rw [effects_mk, Code.effects_storeSlot_eq, effects_inRep]
    refine List.forall_mem_append.mpr ⟨hc, List.forall_mem_singleton.mpr fun σ n hx hσ => ?_⟩
    cases hx
    obtain ⟨-, -, p, hp, hstores⟩ := hbinding hσ
    exact ⟨p, hp, _, .code c, hstores, rfl, rfl⟩
  · next hslot =>
    have hplain : ¬ acc.binding.storage.IsTyped := fun ht => by
      obtain ⟨hscopes, hconstant, -⟩ := hbinding ht
      obtain ⟨name, scopes, storage, constant⟩ := acc
      dsimp only at hscopes hconstant ht
      subst hscopes hconstant
      cases storage with
      | slot ρ k => exact hslot name ρ k rfl
      | _ => exact ht
    refine List.forall_mem_append.mpr ⟨permitted_scopes hscopes, List.forall_mem_append.mpr
      ⟨?_, permitted_bindingWrites ((permitted_of_not_isTyped hplain).2 _)⟩⟩
    rw [effects_inRep]
    exact hc

namespace Named

variable (h : Named ctx given i acc)
include h

theorem permitted_effects : ∀ e ∈ acc.effects, e.Permitted ctx given W ps :=
  permitted_scopes h.scopes

theorem permitted_reads (hi : ctx.analysis.Reads W i) :
    ∀ e ∈ acc.binding.reads, e.Permitted ctx given W ps := by
  refine List.forall_mem_singleton.mpr fun ht => ?_
  obtain ⟨v, hv, hconcrete⟩ := h.binding ht
  obtain ⟨k, hslot, hacc⟩ := h.slot v hv hconcrete
  rw [hacc]
  exact ⟨v, hi.written v hv hconcrete, _, hslot, rfl⟩

theorem permitted_writes {p : Piece} {source : Source} (hp : p ∈ ps)
    (hstores : acc.scopes.isEmpty = true → p.Stores ctx given acc source)
    (hsource : ∀ c, source ≠ .code c) :
    ∀ e ∈ acc.binding.writes source, e.Permitted ctx given W ps := by
  refine permitted_bindingWrites fun ρ k hx hρ => ?_
  have hdirect := (h.direct (by rw [hx]; exact hρ)).1
  refine ⟨p, hp, acc, source, hstores (by rw [hdirect]; rfl), hx, ?_⟩
  cases source with
  | code c => exact absurd rfl (hsource c)
  | _ => rfl

theorem permitted_load (hi : ctx.analysis.Reads W i) (lenient : Bool) :
    ∀ e ∈ (acc.load lenient).effects, e.Permitted ctx given W ps := by
  have hreads : ∀ e ∈ acc.binding.reads, e.Permitted ctx given W ps := h.permitted_reads hi
  have heffects : ∀ e ∈ acc.effects, e.Permitted ctx given W ps := h.permitted_effects
  unfold Access.load
  split
  · exact hreads
  · exact List.forall_mem_append.mpr ⟨heffects, hreads⟩

theorem permitted_store {p : Piece} (hp : p ∈ ps)
    (hstores : acc.scopes.isEmpty = true → p.Stores ctx given acc (.code c))
    (hc : ∀ e ∈ c.effects, e.Permitted ctx given W ps) :
    ∀ e ∈ (acc.store c).effects, e.Permitted ctx given W ps := by
  refine Compile.permitted_store h.scopes (fun ht => ?_) hc
  obtain ⟨hscopes, hconstant⟩ := h.direct ht
  exact ⟨hscopes, hconstant, p, hp, hstores (by rw [hscopes]; rfl)⟩

theorem permitted_step (hi : ctx.analysis.Reads W i) {p : Piece} (hp : p ∈ ps)
    (hstores : p.Stores ctx given acc .number) (op : UpdateOp) (before : Bool) :
    ∀ e ∈ (stepCode op before (.name acc)).effects, e.Permitted ctx given W ps := by
  have hreads : ∀ e ∈ acc.binding.reads, e.Permitted ctx given W ps := h.permitted_reads hi
  have heffects : ∀ e ∈ acc.effects, e.Permitted ctx given W ps := h.permitted_effects
  have hwrites := h.permitted_writes (W := W) hp (fun _ => hstores) nofun
  unfold stepCode
  split
  · next heq =>
    cases heq
    exact List.forall_mem_append.mpr ⟨hreads, hwrites⟩
  · exact List.forall_mem_append.mpr ⟨heffects, List.forall_mem_append.mpr ⟨hreads, hwrites⟩⟩

end Named

/-! ### Expressions -/

/-- What holds later of the result of a computation that can be repeated. -/
theorem Ensures.coded {α : Type} {Q R : BodyState → α → Prop} {x : Compile α} (h : Ensures ctx R x)
    (hx : Steady ctx Q x) :
    Ensures ctx (fun given a => x given = .ok (a, given) ∧ R given a) x := by
  intro s a s' heq
  obtain ⟨hgrows, hlater⟩ := h heq
  exact ⟨hgrows, fun hs given hgiven => ⟨((hx heq).2 hgiven).1, hlater hs hgiven⟩⟩

theorem ensures_lift {α : Type} (x : Except StaticError α) :
    Ensures ctx (fun _ a => x = .ok a) (liftM x : Compile α) := by
  intro s a s' h
  cases x with
  | error e => cases h
  | ok b =>
    cases h
    exact ⟨.refl s, fun _ _ _ => rfl⟩

theorem ensures_namedTarget (hi : ctx.analysis.Guarded i) :
    Ensures ctx (fun given r => ∃ acc, r = .name acc ∧ identifier ctx i given = .ok (acc, given) ∧
      Named ctx given i acc) (target ctx (.identifier i)) :=
  (ensures_named hi).bind fun acc => .pure fun _ h => ⟨acc, rfl, h⟩

/-- The code of an expression is known later, and its effects come from the pieces of the
expression. -/
def EnsuresTyped (ctx : BodyContext) (W : Set VariableId) (e : Expr) : Prop :=
  Ensures ctx (fun given c => expr ctx e given = .ok (c, given) ∧
    Typed ctx given W e.pieces c.effects) (expr ctx e)

theorem typed_of_inside
    (h : Ensures ctx (fun given c => TypedInside ctx given W e c.effects) (expr ctx e))
    (hsites : AllSound ctx.analysis (e.typeSites ctx.analysis W)) : EnsuresTyped ctx W e :=
  (h.coded (steady_expr e)).mono fun _ c ⟨hcode, hinside⟩ =>
    ⟨hcode, hinside.effects, List.forall_mem_cons.mpr ⟨⟨⟨W, hsites⟩, c, hcode⟩, hinside.pieces⟩⟩

/-- A name on its own is an expression that was compiled. -/
theorem known_identifier (hi : ctx.analysis.Reads W i)
    (h : identifier ctx i given = .ok (acc, given)) :
    (Piece.expr (.identifier i)).Known ctx given := by
  refine ⟨⟨W, List.forall_mem_singleton.mpr hi⟩, acc.load false, ?_⟩
  rw [expr, bind_of_ok h]
  rfl

theorem known_member {m : Member} {r : Reference}
    (hsites : AllSound ctx.analysis (m.typeSites ctx.analysis W))
    (h : member ctx m given = .ok (r, given)) : (Piece.expr (.member m)).Known ctx given := by
  refine ⟨⟨W, hsites⟩, ⟨.boxed, .load r false⟩, ?_⟩
  rw [expr, bind_of_ok h]
  rfl

theorem effects_sequenceCode (first : TypedCode) (rest : List TypedCode) :
    (sequenceCode first rest).effects = (first :: rest).flatMap TypedCode.effects := by
  induction rest generalizing first with
  | nil => simp [sequenceCode]
  | cons next rest ih =>
    have hnext := ih next
    rw [List.flatMap_cons, ← hnext]
    rfl

/-- The effects of a reference to a property. -/
structure TypedMember (ctx : BodyContext) (given : BodyState) (W : Set VariableId) (ps : List Piece)
    (r : Reference) : Prop where
  effects : Typed ctx given W ps r.effects
  reads : r.reads = []
  writes : ∀ source, r.writes source = []

/-- An update of a property. -/
theorem TypedMember.step {r : Reference} (h : TypedMember ctx given W ps r) (op : UpdateOp)
    (before : Bool) :
    Typed ctx given W ps (stepCode op before r).effects := by
  have hreads := h.reads
  unfold stepCode
  split
  · cases hreads
  · rw [effects_mk, Code.effects, h.reads, h.writes, List.append_nil, List.append_nil]
    exact h.effects

theorem Typed.member {o k : TypedCode} (h : Typed ctx given W ps (o.effects ++ k.effects)) :
    TypedMember ctx given W ps (.member (o.inRep .boxed) (k.inRep .boxed)) where
  effects := by simpa only [Reference.effects, effects_inRep] using h
  reads := rfl
  writes _ := rfl

/-- An assignment of the value of an expression to a name. -/
theorem typedInside_store {span : Span} {value : Expr}
    (hacc : identifier ctx i given = .ok (acc, given) ∧ Named ctx given i acc)
    (hc : expr ctx value given = .ok (c, given) ∧ Typed ctx given W value.pieces c.effects) :
    TypedInside ctx given W (.assign span .plain (.identifier i) value) (acc.store c).effects :=
  ⟨hacc.2.permitted_store List.mem_cons_self (fun _ => .assigned hacc.1 hc.1) hc.2.inner_permitted,
    hc.2.pieces⟩

/-! ### Kinds of expressions -/

section Kinds

variable {span : Span}

/-- An operator looks at a name or a property instead of its value in two cases. -/
theorem typedInside_unary {op : UnaryOp} {argument : Expr}
    (h : AllSound ctx.analysis (argument.typeSites ctx.analysis W))
    (hargument : EnsuresTyped ctx W argument)
    (hmember : match argument with
      | .member m => Ensures ctx (fun given r => TypedMember ctx given W m.inner r) (member ctx m)
      | _ => True) :
    Ensures ctx (fun given c => TypedInside ctx given W (.unary span op argument) c.effects)
      (expr ctx (.unary span op argument)) := by
  have hplain : Ensures ctx
      (fun given c => TypedInside ctx given W (.unary span op argument) c.effects)
      (do return specializeUnary op (← expr ctx argument)) :=
    Ensures.bind hargument fun c => .pure fun _ hc =>
      Typed.inside (by rw [effects_unary]; exact hc.2)
  cases op with
  | delete =>
    cases argument with
    | identifier i =>
      have hi := (allSound_cons.mp h).1
      exact (ensures_named hi.guarded).bind fun acc => .pure fun _ hacc =>
        ⟨hacc.2.permitted_effects, List.forall_mem_singleton.mpr (known_identifier hi hacc.1)⟩
    | member m =>
      refine (Ensures.coded hmember (steady_member m)).bind fun r => .pure fun _ hr => ?_
      exact (hr.2.effects.cons (known_member h hr.1)).inside
    | _ => exact hplain
  | typeOf =>
    cases argument with
    | identifier i =>
      have hi := (allSound_cons.mp h).1
      refine (ensures_named hi.guarded).bind fun acc => .pure fun _ hacc =>
        ⟨?_, List.forall_mem_singleton.mpr (known_identifier hi hacc.1)⟩
      rw [effects_unary]
      exact hacc.2.permitted_load hi true
    | _ => exact hplain
  | _ => exact hplain

theorem typedInside_assign_name {op : AssignOp} {value : Expr}
    (h : AllSound ctx.analysis
      ((Expr.assign span op (.identifier i) value).typeSites ctx.analysis W))
    (hvalue : AllSound ctx.analysis (value.typeSites ctx.analysis W) → EnsuresTyped ctx W value) :
    Ensures ctx (fun given c =>
      TypedInside ctx given W (.assign span op (.identifier i) value) c.effects)
      (expr ctx (.assign span op (.identifier i) value)) := by
  cases op with
  | plain =>
    obtain ⟨hv, hwrite⟩ := allSound_append.mp h
    have hi := (allSound_cons.mp hwrite).1
    exact (ensures_named hi.guarded).bind fun acc => Ensures.bind (hvalue hv) fun c =>
      .pure fun _ hc hacc => typedInside_store hacc hc
  | compound op =>
    obtain ⟨hread, h⟩ := allSound_cons.mp h
    obtain ⟨hv, hwrite⟩ := allSound_append.mp h
    refine (ensures_named hread.guarded).bind fun acc => Ensures.bind (hvalue hv) fun c => ?_
    split
    · next hscopes =>
      refine .pure fun _ hc hacc => ⟨hacc.2.permitted_store List.mem_cons_self
        (fun _ => .combined hacc.1 hc.1 hscopes) ?_, hc.2.pieces⟩
      rw [effects_binary]
      exact List.forall_mem_append.mpr ⟨hacc.2.permitted_load hread false, hc.2.inner_permitted⟩
    · next hscopes =>
      have hhidden := Bool.eq_false_iff.mpr hscopes
      refine .pure fun _ hc hacc => ⟨?_, hc.2.pieces⟩
      simp only [effects_mk, Code.effects, effects_inRep, List.forall_mem_append]
      exact ⟨hacc.2.permitted_effects, hacc.2.permitted_reads hread, hc.2.inner_permitted,
        hacc.2.permitted_writes List.mem_cons_self (fun _ => .hidden hacc.1 hhidden) (by simp)⟩

theorem typedInside_assign_member {op : AssignOp} {m : Member} {value : Expr}
    (hmember : Ensures ctx (fun given r => TypedMember ctx given W m.inner r) (member ctx m))
    (hvalue : EnsuresTyped ctx W value) :
    Ensures ctx (fun given c =>
      TypedInside ctx given W (.assign span op (.member m) value) c.effects)
      (expr ctx (.assign span op (.member m) value)) := by
  cases op with
  | plain =>
    refine hmember.bind fun r => Ensures.bind hvalue fun c => .pure fun _ hc hr => Typed.inside ?_
    simp only [effects_mk, Code.effects, effects_inRep, hr.writes, List.append_nil]
    exact hr.effects.append hc.2
  | compound op =>
    refine Ensures.bind hvalue fun c => hmember.bind fun r => .pure fun _ hr hc => Typed.inside ?_
    simp only [effects_mk, Code.effects, effects_inRep, hr.reads, hr.writes, List.append_nil,
      List.nil_append]
    exact hr.effects.append hc.2

/-- A call looks at a name or a property instead of its value. -/
theorem typedInside_call {callee : Expr} {arguments : List Expr}
    (h : AllSound ctx.analysis (callee.typeSites ctx.analysis W))
    (hcallee : EnsuresTyped ctx W callee) (hmember : match callee with
      | .member m => Ensures ctx (fun given r => TypedMember ctx given W m.inner r) (member ctx m)
      | _ => True)
    (harguments : Ensures ctx
      (fun given cs => Typed ctx given W (exprPieces arguments) (listEffects cs))
      (exprList ctx arguments)) :
    Ensures ctx (fun given c => TypedInside ctx given W (.call span callee arguments) c.effects)
      (expr ctx (.call span callee arguments)) := by
  have hplain : Ensures ctx
      (fun given c => TypedInside ctx given W (.call span callee arguments)
        (TypedCode.effects c)) (do
        let f ← expr ctx callee
        return ⟨.boxed, .call (f.inRep .boxed) (← exprList ctx arguments)⟩) := by
    refine Ensures.bind hcallee fun _ => harguments.bind fun _ => .pure fun _ hcs hf =>
      Typed.inside ?_
    simp only [effects_mk, Code.effects, effects_inRep]
    exact hf.2.append hcs
  cases callee with
  | member m =>
    refine (Ensures.coded hmember (steady_member m)).bind fun r => harguments.bind fun _ =>
      .pure fun _ hcs hr => Typed.inside ?_
    simp only [effects_mk, Code.effects, hr.2.reads, List.nil_append]
    exact (hr.2.effects.cons (known_member h hr.1)).append hcs
  | identifier i =>
    have hi := (allSound_cons.mp h).1
    refine (ensures_named hi.guarded).bind fun acc => harguments.bind fun _ =>
      .pure fun _ hcs hacc => Typed.inside ?_
    have hplace : Typed ctx _ W [.expr (.identifier i)] (acc.effects ++ acc.binding.reads) :=
      ⟨List.forall_mem_append.mpr ⟨hacc.2.permitted_effects, hacc.2.permitted_reads hi⟩,
        List.forall_mem_singleton.mpr (known_identifier hi hacc.1)⟩
    have hcall := hplace.append hcs
    rw [List.append_assoc] at hcall
    exact hcall
  | _ => exact hplain

end Kinds

mutual

/-- The effects of an expression come from its pieces. -/
theorem typed_inside (W : Set VariableId) :
    ∀ e : Expr, AllSound ctx.analysis (e.typeSites ctx.analysis W) →
    Ensures ctx (fun given c => TypedInside ctx given W e c.effects) (expr ctx e)
  | .literal _ value, _ => .pure fun _ => Typed.inside (by cases value <;> exact .nil)
  | .identifier i, h => by
    have hi := (allSound_cons.mp h).1
    exact (ensures_named hi.guarded).bind fun acc => .pure fun _ hacc =>
      ⟨hacc.2.permitted_load hi false, nofun⟩
  | .this _, _ => .pure fun _ => Typed.nil.inside
  | .array _ elements, h =>
    (typed_elementList W elements h).bind fun _ => .pure fun _ hcs => hcs.inside
  | .object _ properties, h =>
    (typed_propertyList W properties h).bind fun _ => .pure fun _ hcs => hcs.inside
  | .function f, h => by
    refine Ensures.bind (R := fun _ g => func ctx.analysis f = .ok g) (ensures_lift _) fun g =>
      .pure fun _ hg => ⟨?_, nofun⟩
    exact List.forall_mem_singleton.mpr ⟨_, List.mem_cons_self, f, rfl, hg⟩
  | .unary _ _ argument, h => by
    have hargument := typed_of_inside (typed_inside W argument h) h
    cases argument with
    | member m => exact typedInside_unary h hargument (typed_member W m h)
    | _ => exact typedInside_unary h hargument trivial
  | .update _ op (.identifier i) before, h => by
    obtain ⟨hread, -⟩ := allSound_cons.mp h
    refine (ensures_namedTarget hread.guarded).bind fun r => .pure fun _ hr => ?_
    obtain ⟨acc, rfl, hcode, hacc⟩ := hr
    exact ⟨hacc.permitted_step hread List.mem_cons_self (.stepped hcode) op before, nofun⟩
  | .update _ op (.member m) before, h =>
    (typed_member W m h).bind fun _ => .pure fun _ hr => (hr.step op before).inside
  | .binary _ op left right, h => by
    obtain ⟨hl, hr⟩ := allSound_append.mp h
    refine (typed_of_inside (typed_inside W left hl) hl).bind fun _ =>
      (typed_of_inside (typed_inside W right hr) hr).bind fun _ => .pure fun _ hr hl =>
        Typed.inside ?_
    rw [effects_binary]
    exact hl.2.append hr.2
  | .logical _ op left right, h => by
    obtain ⟨hl, hr⟩ := allSound_append.mp h
    refine (typed_of_inside (typed_inside W left hl) hl).bind fun _ =>
      (typed_of_inside (typed_inside W right hr) hr).bind fun _ => .pure fun _ hr hl =>
        Typed.inside ?_
    simp only [logicalCode, effects_mk, Code.effects, effects_inRep]
    exact hl.2.append hr.2
  | .assign _ _ (.identifier _) value, h =>
    typedInside_assign_name h fun hv => typed_of_inside (typed_inside W value hv) hv
  | .assign _ .plain (.member m) value, h => by
    obtain ⟨hm, hv⟩ := allSound_append.mp h
    exact typedInside_assign_member (typed_member W m hm)
      (typed_of_inside (typed_inside W value hv) hv)
  | .assign _ (.compound _) (.member m) value, h => by
    obtain ⟨hm, hv⟩ := allSound_append.mp h
    exact typedInside_assign_member (typed_member W m hm)
      (typed_of_inside (typed_inside W value hv) hv)
  | .conditional _ test consequent alternate, h => by
    obtain ⟨htest, h⟩ := allSound_append.mp h
    obtain ⟨hc, ha⟩ := allSound_append.mp h
    refine (typed_of_inside (typed_inside W test htest) htest).bind fun _ =>
      (typed_of_inside (typed_inside W consequent hc) hc).bind fun _ =>
        (typed_of_inside (typed_inside W alternate ha) ha).bind fun _ => .pure fun _ ha hc ht =>
          Typed.inside ?_
    simp only [conditionalCode, effects_mk, Code.effects, effects_inRep]
    exact ht.2.append (hc.2.append ha.2)
  | .call _ callee arguments, h => by
    obtain ⟨hcallee, harguments⟩ := allSound_append.mp h
    have hcode := typed_of_inside (typed_inside W callee hcallee) hcallee
    have hlist := typed_exprList W arguments harguments
    cases callee with
    | member m => exact typedInside_call hcallee hcode (typed_member W m hcallee) hlist
    | _ => exact typedInside_call hcallee hcode trivial hlist
  | .construct _ callee arguments, h => by
    obtain ⟨hcallee, harguments⟩ := allSound_append.mp h
    refine (typed_of_inside (typed_inside W callee hcallee) hcallee).bind fun _ =>
      (typed_exprList W arguments harguments).bind fun _ => .pure fun _ hcs hf => Typed.inside ?_
    simp only [effects_mk, Code.effects, effects_inRep]
    exact hf.2.append hcs
  | .sequence _ expressions, h => by
    refine (typed_typedList W expressions h).bind fun cs => ?_
    cases cs with
    | nil => exact .pure fun _ hcs => hcs.inside
    | cons first rest =>
      refine .pure fun _ hcs => Typed.inside ?_
      rw [effects_sequenceCode]
      exact hcs
  | .member m, h => by
    refine (typed_member W m h).bind fun r => .pure fun _ hr => Typed.inside ?_
    simp only [effects_mk, Code.effects, hr.reads, List.append_nil]
    exact hr.effects
termination_by structural x => x

/-- The effects of several expressions come from their pieces. -/
theorem typed_typedList (W : Set VariableId) : ∀ es : List Expr,
    AllSound ctx.analysis (exprTypeSites ctx.analysis W es) →
      Ensures ctx (fun given cs => Typed ctx given W (exprPieces es) (cs.flatMap TypedCode.effects))
        (typedList ctx es)
  | [], _ => .pure fun _ => .nil
  | e :: rest, h => by
    obtain ⟨he, hrest⟩ := allSound_append.mp h
    exact (typed_of_inside (typed_inside W e he) he).bind fun c =>
      (typed_typedList W rest hrest).bind fun cs =>
      .pure fun _ hcs hc => by
        rw [List.flatMap_cons]
        exact hc.2.append hcs
termination_by structural x => x

theorem typed_exprList (W : Set VariableId) : ∀ es : List Expr,
    AllSound ctx.analysis (exprTypeSites ctx.analysis W es) →
      Ensures ctx (fun given cs => Typed ctx given W (exprPieces es) (listEffects cs))
        (exprList ctx es)
  | [], _ => .pure fun _ => .nil
  | e :: rest, h => by
    obtain ⟨he, hrest⟩ := allSound_append.mp h
    exact (typed_of_inside (typed_inside W e he) he).bind fun c =>
      (typed_exprList W rest hrest).bind fun cs =>
      .pure fun _ hcs hc => by
        rw [listEffects, effects_inRep]
        exact hc.2.append hcs
termination_by structural x => x

theorem typed_elementList (W : Set VariableId) : ∀ es : List (Option Expr),
    AllSound ctx.analysis (elementTypeSites ctx.analysis W es) →
      Ensures ctx (fun given cs => Typed ctx given W (elementPieces es) (listEffects cs))
        (elementList ctx es)
  | [], _ => .pure fun _ => .nil
  | none :: rest, h => (typed_elementList W rest h).bind fun cs => .pure fun _ hcs => hcs
  | some e :: rest, h => by
    obtain ⟨he, hrest⟩ := allSound_append.mp h
    exact (typed_of_inside (typed_inside W e he) he).bind fun c =>
      (typed_elementList W rest hrest).bind fun cs =>
      .pure fun _ hcs hc => by
        rw [listEffects, effects_inRep]
        exact hc.2.append hcs
termination_by structural x => x

theorem typed_propertyList (W : Set VariableId) : ∀ ps : List Property,
    AllSound ctx.analysis (propertyTypeSites ctx.analysis W ps) →
      Ensures ctx (fun given cs => Typed ctx given W (propertyPieces ps) (propertyEffects cs))
        (propertyList ctx ps)
  | [], _ => .pure fun _ => .nil
  | .mk _ _ value :: rest, h => by
    obtain ⟨hvalue, hrest⟩ := allSound_append.mp h
    exact (typed_of_inside (typed_inside W value hvalue) hvalue).bind fun c =>
      (typed_propertyList W rest hrest).bind fun cs =>
      .pure fun _ hcs hc => by
        rw [propertyEffects, effects_inRep]
        exact hc.2.append hcs
termination_by structural x => x

theorem typed_member (W : Set VariableId) :
    ∀ m : Member, AllSound ctx.analysis (m.typeSites ctx.analysis W) →
    Ensures ctx (fun given r => TypedMember ctx given W m.inner r) (member ctx m)
  | .named _ object _, h =>
    (typed_of_inside (typed_inside W object h) h).bind fun _ => .pure fun _ ho =>
      ⟨by simp only [Reference.effects, Code.effects, effects_inRep,
        List.append_nil]; exact ho.2, rfl, fun _ => rfl⟩
  | .computed _ object property, h => by
    obtain ⟨ho, hp⟩ := allSound_append.mp h
    exact (typed_of_inside (typed_inside W object ho) ho).bind fun _ =>
      (typed_of_inside (typed_inside W property hp) hp).bind fun _ => .pure fun _ hp ho =>
        (ho.2.append hp.2).member
termination_by structural x => x

end

end Compile

end ScriptEngine
