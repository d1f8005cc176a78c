import ScriptEngine.Compile.Body
import ScriptEngine.Proofs.Code.Hiding

/-!
# Stability of compilation

A body's slots and record numbers are given once and kept.  So the code of an expression is the same
at every later moment of the compilation of its body, and it uses no slot that was not given to a
variable.

## Main definitions

* `BodyState.Grows` : a later moment of the compilation of a body.
* `BodyState.Hidden` : the slots that were not given to a variable.
* `Compile.Steady` : a computation that can be repeated later with the same result.
* `Compile.Ensures` : what holds later of the result of a computation.

## Main statements

* `Compile.steady_expr`, `Compile.steady_target` : the code of expressions and of what is assigned
  to.
* `Compile.steady_hoistList` : the code that makes declared functions.
-/

namespace ScriptEngine

namespace BodyState

/-! ### Later moments -/

/-- The slots and record numbers that a body has been given fit together: the slots of variables are
counted and differ, each is of the kind that the type of its variable asks for, and no record has
two numbers. -/
structure Sound (ctx : BodyContext) (s : BodyState) : Prop where
  counted : ∀ v x, s.slot? v = some x → x.index < s.count x.rep
  kind : ∀ v x, s.slot? v = some x → x.rep = .ofValueType (ctx.analysis.var v).valueType
  distinct : ∀ v w x, s.slot? v = some x → s.slot? w = some x → v = w
  hops : s.hops.Nodup

/-- What has been given is kept, and new slots come after those that were counted. -/
structure Grows (ctx : BodyContext) (s t : BodyState) : Prop where
  slots : ∀ {v x}, s.slot? v = some x → t.slot? v = some x
  fresh : ∀ {v x}, t.slot? v = some x → s.slot? v = some x ∨ s.count x.rep ≤ x.index
  count : ∀ ρ, s.count ρ ≤ t.count ρ
  hops : s.hops <+: t.hops
  sound : s.Sound ctx → t.Sound ctx

variable {ctx : BodyContext}

theorem Grows.refl (s : BodyState) : s.Grows ctx s :=
  ⟨id, .inl, fun _ => Nat.le_refl _, List.prefix_rfl, id⟩

theorem Grows.trans {s t u : BodyState} (h : s.Grows ctx t) (h' : t.Grows ctx u) :
    s.Grows ctx u where
  slots hv := h'.slots (h.slots hv)
  fresh {v x} hv := by
    rcases h'.fresh hv with hv | hx
    · exact h.fresh hv
    · exact .inr (Nat.le_trans (h.count x.rep) hx)
  count ρ := Nat.le_trans (h.count ρ) (h'.count ρ)
  hops := h.hops.trans h'.hops
  sound hs := h'.sound (h.sound hs)

/-- A slot for values that was not given to a variable. -/
def Hidden (s : BodyState) (i : Nat) : Prop :=
  ∀ v, s.slot? v ≠ some ⟨.boxed, i⟩

theorem slot?_grow (s : BodyState) (ρ : Rep) (v : VariableId) : (s.grow ρ).slot? v = s.slot? v := by
  cases ρ <;> rfl

theorem count_grow (s : BodyState) (ρ σ : Rep) :
    (s.grow ρ).count σ = if σ = ρ then s.count σ + 1 else s.count σ := by
  cases ρ <;> cases σ <;> rfl

theorem count_le_grow (s : BodyState) (ρ σ : Rep) : s.count σ ≤ (s.grow ρ).count σ := by
  rw [count_grow]
  split <;> omega

theorem grows_grow (s : BodyState) (ρ : Rep) : s.Grows ctx (s.grow ρ) where
  slots hv := by rw [slot?_grow]; exact hv
  fresh hv := by rw [slot?_grow] at hv; exact .inl hv
  count := s.count_le_grow ρ
  hops := by cases ρ <;> exact List.prefix_rfl
  sound hs :=
    { counted := fun v x hv => by
        rw [slot?_grow] at hv
        exact Nat.lt_of_lt_of_le (hs.counted v x hv) (s.count_le_grow ρ x.rep)
      kind := fun v x hv => hs.kind v x (by rwa [slot?_grow] at hv)
      distinct := fun v w x hv hw =>
        hs.distinct v w x (by rwa [slot?_grow] at hv) (by rwa [slot?_grow] at hw)
      hops := by cases ρ <;> exact hs.hops }

/-- The slots of variables after one more was given. -/
theorem slot?_cons (s : BodyState) (v w : VariableId) (x : Slot) :
    { s with slots := (v, x) :: s.slots }.slot? w = if v = w then some x else s.slot? w := by
  simp only [slot?, List.find?_cons]
  split
  · next h => simp [beq_iff_eq.mp h]
  · next h => rw [if_neg fun heq => by simp [heq] at h]

/-- The state after a variable was given a new slot of the kind that its type asks for. -/
theorem grows_give {s : BodyState} {v : VariableId} (hv : s.slot? v = none) {ρ : Rep}
    (hρ : ρ = .ofValueType (ctx.analysis.var v).valueType) :
    s.Grows ctx { s.grow ρ with slots := (v, ⟨ρ, s.count ρ⟩) :: (s.grow ρ).slots } where
  slots {w x} hw := by
    have hne : v ≠ w := fun heq => by rw [← heq, hv] at hw; cases hw
    rw [slot?_cons, if_neg hne, slot?_grow]
    exact hw
  fresh {w x} hw := by
    rw [slot?_cons, slot?_grow] at hw
    split at hw
    · cases hw; exact .inr (Nat.le_refl _)
    · exact .inl hw
  count σ := s.count_le_grow ρ σ
  hops := by cases ρ <;> exact List.prefix_rfl
  sound hs := by
    have hcases {w : VariableId} {x : Slot}
        (hw : { s.grow ρ with slots := (v, ⟨ρ, s.count ρ⟩) :: (s.grow ρ).slots }.slot? w = some x) :
        w = v ∧ x = ⟨ρ, s.count ρ⟩ ∨ s.slot? w = some x := by
      rw [slot?_cons, slot?_grow] at hw
      split at hw
      · next heq => exact .inl ⟨heq.symm, (Option.some.inj hw).symm⟩
      · exact .inr hw
    -- The new slot comes after all those that were given before.
    have hnew {w : VariableId} (hw : s.slot? w = some ⟨ρ, s.count ρ⟩) : False :=
      Nat.lt_irrefl _ (hs.counted w _ hw)
    refine ⟨fun w x hw => ?_, fun w x hw => ?_, fun w u x hw hu => ?_, by cases ρ <;> exact hs.hops⟩
    · rcases hcases hw with ⟨-, rfl⟩ | hw
      · change s.count ρ < (s.grow ρ).count ρ
        rw [count_grow, if_pos rfl]
        exact Nat.lt_succ_self _
      · exact Nat.lt_of_lt_of_le (hs.counted w x hw) (s.count_le_grow ρ x.rep)
    · rcases hcases hw with ⟨rfl, rfl⟩ | hw
      · exact hρ
      · exact hs.kind w x hw
    · rcases hcases hw with ⟨rfl, rfl⟩ | hsw <;> rcases hcases hu with ⟨rfl, hx⟩ | hsu
      · rfl
      · exact (hnew hsu).elim
      · exact (hnew (hx ▸ hsw)).elim
      · exact hs.distinct w u x hsw hsu

/-- A slot that was taken for no variable stays hidden. -/
theorem Grows.hidden {s t : BodyState} (hs : s.Sound ctx) (h : (s.grow .boxed).Grows ctx t) :
    t.Hidden s.values := by
  intro v hv
  rcases h.fresh hv with hv | hle
  · rw [slot?_grow] at hv
    exact Nat.lt_irrefl _ (hs.counted v _ hv)
  · rw [count_grow, if_pos rfl] at hle
    exact Nat.not_succ_le_self _ hle

end BodyState

namespace Compile

variable {α β : Type} {ctx : BodyContext}

theorem bind_eq_ok {x : Compile α} {f : α → Compile β} {s : BodyState} {r : β × BodyState}
    (h : (x >>= f) s = .ok r) : ∃ a s', x s = .ok (a, s') ∧ f a s' = .ok r := by
  change (x s >>= fun p => f p.1 p.2) = .ok r at h
  cases hx : x s with
  | error e => rw [hx] at h; cases h
  | ok p => exact ⟨p.1, p.2, rfl, by rw [hx] at h; exact h⟩

/-! ### Steady computations -/

/-- A computation keeps what has been given, and at every later moment it changes nothing and yields
the same result, of which `Q` holds. -/
def Steady (ctx : BodyContext) (Q : BodyState → α → Prop) (x : Compile α) : Prop :=
  ∀ ⦃s a s'⦄, x s = .ok (a, s') →
    s.Grows ctx s' ∧ ∀ ⦃t⦄, s'.Grows ctx t → x t = .ok (a, t) ∧ Q t a

namespace Steady

variable {Q : BodyState → α → Prop} {Q' : BodyState → β → Prop} {x : Compile α}

theorem pure {a : α} (h : ∀ t, Q t a) : Steady ctx Q (pure a : Compile α) := by
  intro s b s' hx
  cases hx
  exact ⟨.refl s, fun t _ => ⟨rfl, h t⟩⟩

/-- The result is the one that the computation has then, too. -/
theorem self (h : Steady ctx Q x) : Steady ctx (fun t a => x t = .ok (a, t) ∧ Q t a) x := by
  intro s a s' hx
  obtain ⟨hgrows, hlater⟩ := h hx
  exact ⟨hgrows, fun t ht => ⟨(hlater ht).1, hlater ht⟩⟩

theorem throw (e : StaticError) : Steady ctx Q (throw e : Compile α) := by
  intro s b s' hx
  cases hx

theorem lift (x : Except StaticError α) (h : ∀ t a, Q t a) :
    Steady ctx Q (liftM x : Compile α) := by
  intro s b s' hx
  cases x with
  | error e => cases hx
  | ok a =>
    cases hx
    exact ⟨.refl s, fun t _ => ⟨rfl, h t _⟩⟩

theorem bind {f : α → Compile β} (hx : Steady ctx Q x)
    (hf : ∀ a, Steady ctx (fun t b => Q t a → Q' t b) (f a)) :
    Steady ctx Q' (x >>= f) := by
  intro s b s'' h
  obtain ⟨a, s', hxa, hfb⟩ := bind_eq_ok h
  obtain ⟨hgrows, hlater⟩ := hx hxa
  obtain ⟨hgrows', hlater'⟩ := hf a hfb
  refine ⟨hgrows.trans hgrows', fun t ht => ?_⟩
  obtain ⟨hxt, hQ⟩ := hlater (hgrows'.trans ht)
  obtain ⟨hft, hQ'⟩ := hlater' ht
  refine ⟨?_, hQ' hQ⟩
  change (x t >>= fun p => f p.1 p.2) = _
  rw [hxt]
  exact hft

end Steady

/-! ### Places of variables -/

theorem get_bind {α : Type} (f : BodyState → Compile α) (s : BodyState) :
    ((get : Compile BodyState) >>= f) s = f s s := rfl

theorem slot_of_some {v : VariableId} {s : BodyState} {x : Slot} (h : s.slot? v = some x) :
    slot ctx v s = .ok (x, s) := by
  unfold slot
  rw [get_bind, h]
  rfl

theorem slot_of_none {v : VariableId} {s : BodyState} (h : s.slot? v = none) :
    slot ctx v s = .ok (⟨.ofValueType (ctx.analysis.var v).valueType,
        s.count (.ofValueType (ctx.analysis.var v).valueType)⟩,
      { s.grow (.ofValueType (ctx.analysis.var v).valueType) with
        slots := (v, ⟨.ofValueType (ctx.analysis.var v).valueType,
          s.count (.ofValueType (ctx.analysis.var v).valueType)⟩) ::
            (s.grow (.ofValueType (ctx.analysis.var v).valueType)).slots }) := by
  unfold slot
  rw [get_bind, h]
  rfl

theorem steady_slot (v : VariableId) : Steady ctx (fun t x => t.slot? v = some x) (slot ctx v) := by
  intro s x s' h
  cases hv : s.slot? v with
  | some y =>
    rw [slot_of_some hv] at h
    cases h
    exact ⟨.refl s, fun t ht => ⟨slot_of_some (ht.slots hv), ht.slots hv⟩⟩
  | none =>
    rw [slot_of_none hv] at h
    cases h
    refine ⟨BodyState.grows_give hv rfl, fun t ht => ?_⟩
    have hx := ht.slots (by rw [BodyState.slot?_cons, if_pos rfl])
    exact ⟨slot_of_some hx, hx⟩

theorem recordNumber_of_some {hops n : Nat} {s : BodyState}
    (h : s.hops.findIdx? (· == hops) = some n) :
    recordNumber hops s = .ok (n, s) := by
  unfold recordNumber
  rw [get_bind, h]
  rfl

theorem recordNumber_of_none {hops : Nat} {s : BodyState} (h : s.hops.findIdx? (· == hops) = none) :
    recordNumber hops s = .ok (s.hops.length, { s with hops := s.hops ++ [hops] }) := by
  unfold recordNumber
  rw [get_bind, h]
  rfl

theorem findIdx?_mono {l l' : List Nat} {hops n : Nat} (h : l.findIdx? (· == hops) = some n)
    (hl : l <+: l') : l'.findIdx? (· == hops) = some n := by
  obtain ⟨m, rfl⟩ := hl
  rw [List.findIdx?_append, h]
  rfl

theorem steady_recordNumber (hops : Nat) :
    Steady ctx (fun t n => t.hops[n]? = some hops) (recordNumber hops) := by
  have hfound {l : List Nat} {n : Nat} (h : l.findIdx? (· == hops) = some n) :
      l[n]? = some hops := by
    obtain ⟨hn, hhops, -⟩ := List.findIdx?_eq_some_iff_getElem.mp h
    rw [List.getElem?_eq_getElem hn, beq_iff_eq.mp hhops]
  intro s n s' h
  cases hn : s.hops.findIdx? (· == hops) with
  | some m =>
    rw [recordNumber_of_some hn] at h
    cases h
    refine ⟨.refl s, fun t ht => ?_⟩
    have hlater := findIdx?_mono hn ht.hops
    exact ⟨recordNumber_of_some hlater, hfound hlater⟩
  | none =>
    rw [recordNumber_of_none hn] at h
    cases h
    have hnew : hops ∉ s.hops := fun hmem => by
      simpa using List.findIdx?_eq_none_iff.mp hn hops hmem
    have hsound (hs : s.Sound ctx) : { s with hops := s.hops ++ [hops] }.Sound ctx :=
      { counted := hs.counted
        kind := hs.kind
        distinct := hs.distinct
        hops := List.nodup_append.mpr ⟨hs.hops, List.pairwise_singleton _ hops, fun k hk l hl heq =>
          hnew (by rwa [heq, List.mem_singleton.mp hl] at hk)⟩ }
    refine ⟨⟨id, .inl, fun _ => Nat.le_refl _, List.prefix_append .., hsound⟩, fun t ht => ?_⟩
    have hlater : t.hops.findIdx? (· == hops) = some s.hops.length := by
      refine findIdx?_mono ?_ ht.hops
      rw [List.findIdx?_append, hn]
      simp
    exact ⟨recordNumber_of_some hlater, hfound hlater⟩

/-- An address is that of a field: its record is as many links up as the layout of the field is in
the chain. -/
def Addressed (ctx : BodyContext) (t : BodyState) (f : RecordField)
    (address : FieldAddress) : Prop :=
  address.index = f.index ∧ ∃ hops, ctx.chain.findIdx? (· == f.layout) = some hops ∧
    t.hops[address.record]? = some hops

theorem steady_fieldAddress (f : RecordField) :
    Steady ctx (fun t address => Addressed ctx t f address) (fieldAddress ctx f) := by
  unfold fieldAddress
  split
  · next hops hf =>
      exact (steady_recordNumber hops).bind fun n => .pure fun t hn => ⟨rfl, hops, hf, hn⟩
  · exact .throw _

/-- A storage is one that the state has for a variable: its slot, or its field of a numbered
record. -/
def Allotted (ctx : BodyContext) (t : BodyState) (v : VariableId) : Storage → Prop
  | .slot ρ index => t.slot? v = some ⟨ρ, index⟩
  | .field address | .parameter _ (some address) =>
    ∃ f, (ctx.analysis.var v).field = some f ∧ Addressed ctx t f address
  | .parameter _ none | .global _ => True

/-- The storage of a variable is one that the state has for it. -/
theorem steady_storage (v : VariableId) :
    Steady ctx (fun t x => Allotted ctx t v x) (storage ctx v) := by
  unfold storage
  extract_lets x
  split
  · exact .pure fun _ => trivial
  · split
    · exact .pure fun _ => trivial
    · split
      · next f hf => exact (steady_fieldAddress f).bind fun _ => .pure fun _ h => ⟨f, hf, h⟩
      · exact .throw _
  iterate 2
    split
    · next f hf => exact (steady_fieldAddress f).bind fun _ => .pure fun _ h => ⟨f, hf, h⟩
    · split
      · exact (steady_slot v).bind fun slot => .pure fun t hslot => hslot
      · exact .throw _
  · exact .throw _
  · exact .throw _

/-- A storage is the one that the tables of a moment give to some variable. -/
def Placed (ctx : BodyContext) (t : BodyState) (x : Storage) : Prop :=
  ∃ v, storage ctx v t = .ok (x, t) ∧ Allotted ctx t v x

theorem Placed.shown {t : BodyState} {x : Storage} (h : Placed ctx t x) : x.Shown t.Hidden := by
  obtain ⟨v, -, hv⟩ := h
  cases x with
  | slot ρ index =>
    cases ρ with
    | boxed => exact fun hidden => hidden v hv
    | _ => trivial
  | _ => trivial

theorem steady_binding (v : VariableId) :
    Steady ctx (fun t b => Within (Placed ctx t) b.reads) (binding ctx v) := by
  refine (steady_storage v).self.bind fun x => .pure fun t hx => ?_
  exact List.forall_mem_singleton.mpr ⟨v, hx⟩

theorem steady_bindings : ∀ vs : List VariableId,
    Steady ctx (fun t bs => Within (Placed ctx t) (bs.map fun b => .read b.storage))
      (bindings ctx vs)
  | [] => .pure fun _ => within_nil
  | v :: rest => by
    refine (steady_binding v).bind fun b => (steady_bindings rest).bind fun bs =>
      .pure fun t hbs hb => ?_
    exact within_cons.mpr ⟨hb _ List.mem_cons_self, hbs⟩

/-- The access to a variable uses what the tables give. -/
theorem steady_access (v : VariableId) :
    Steady ctx (fun t a => (Reference.name a).Within (Placed ctx t)) (access ctx v) := by
  unfold access
  extract_lets x
  split
  · split
    · exact (steady_bindings _).bind fun scopes => (steady_binding _).bind fun b =>
        .pure fun t hb hscopes => ⟨hscopes, hb⟩
    · exact .throw _
  · exact (steady_binding v).bind fun b => .pure fun t hb => ⟨within_nil, hb⟩

theorem steady_identifier (i : Identifier) :
    Steady ctx (fun t a => (Reference.name a).Within (Placed ctx t)) (identifier ctx i) := by
  unfold identifier
  split
  · exact steady_access _
  · exact .throw _

end Compile

/-! ### Code of operators -/

/-- The effects of code in some representation. -/
def TypedCode.effects (c : TypedCode) : List Effect :=
  c.code.effects

section Operators

variable {P : Storage → Prop} {l r : TypedCode}

@[simp] theorem effects_convert {ρ : Rep} (c : Code ρ) (σ : Rep) :
    (c.convert σ).effects = c.effects := by
  unfold Code.convert
  split
  · next h =>
    subst h
    rfl
  · rfl

@[simp] theorem effects_inRep (c : TypedCode) (ρ : Rep) : (c.inRep ρ).effects = c.effects :=
  effects_convert c.code ρ

theorem effects_mk {ρ : Rep} (c : Code ρ) : (TypedCode.mk ρ c).effects = c.effects := rfl

theorem effects_sumCode (l r : TypedCode) : (sumCode l r).effects = l.effects ++ r.effects := by
  unfold sumCode
  split <;> simp [effects_mk, Code.effects]

theorem effects_numericCode (op : NumericOp) (l r : TypedCode) :
    (numericCode op l r).effects = l.effects ++ r.effects := by
  unfold numericCode
  split <;> simp [effects_mk, Code.effects]

theorem effects_relationCode (rel : Relation) (l r : TypedCode) :
    (relationCode rel l r).effects = l.effects ++ r.effects := by
  unfold relationCode
  split <;> simp [effects_mk, Code.effects]

theorem effects_equalityCode (e : Equality) (l r : TypedCode) :
    (equalityCode e l r).effects = l.effects ++ r.effects := by
  unfold equalityCode
  split <;> simp [effects_mk, Code.effects]

theorem effects_binary (op : BinaryOp) (l r : TypedCode) :
    (specializeBinary op l r).effects = l.effects ++ r.effects := by
  unfold specializeBinary
  split
  · exact effects_sumCode l r
  · exact effects_numericCode _ l r
  · exact effects_relationCode _ l r
  · exact effects_equalityCode _ l r
  · simp [effects_mk, Code.effects]
  · simp [effects_mk, Code.effects]

theorem effects_unary (op : UnaryOp) (c : TypedCode) :
    (specializeUnary op c).effects = c.effects := by
  cases op <;> simp [specializeUnary, effects_mk, Code.effects] <;> rfl

theorem within_load {a : Access} (h : (Reference.name a).Within P) (lenient : Bool) :
    Within P (a.load lenient).effects := by
  unfold Access.load
  split
  · exact h.reads
  · exact within_append.mpr ⟨h.effects, h.reads⟩

theorem within_store {a : Access} (h : (Reference.name a).Within P) {v : TypedCode}
    (hv : Within P v.effects) : Within P (a.store v).effects := by
  unfold Access.store
  split
  · refine within_storeSlot.mpr ⟨?_, h.reads _ List.mem_cons_self⟩
    rwa [effects_inRep]
  · refine within_append.mpr ⟨h.effects, within_append.mpr ⟨?_, h.writes _⟩⟩
    rwa [effects_inRep]

theorem within_stepCode {place : Reference} (h : place.Within P) (op : UpdateOp) (before : Bool) :
    Within P (Compile.stepCode op before place).effects := by
  unfold Compile.stepCode
  split
  · have hslot := h.reads _ List.mem_cons_self
    exact within_cons.mpr ⟨hslot, within_cons.mpr ⟨hslot, within_nil⟩⟩
  · exact within_append.mpr ⟨h.effects, within_append.mpr ⟨h.reads, h.writes _⟩⟩

theorem within_sequenceCode {first : TypedCode} {rest : List TypedCode}
    (h : ∀ c ∈ first :: rest, Within P c.effects) :
    Within P (sequenceCode first rest).effects := by
  induction rest generalizing first with
  | nil => exact h first List.mem_cons_self
  | cons next rest ih =>
    exact within_append.mpr
      ⟨h first List.mem_cons_self, ih fun c hc => h c (List.mem_cons_of_mem _ hc)⟩

theorem within_member {object key : TypedCode} (ho : Within P object.effects)
    (hk : Within P key.effects) :
    (Reference.member (object.inRep .boxed) (key.inRep .boxed)).Within P := by
  refine ⟨within_append.mpr ⟨?_, ?_⟩, within_nil⟩ <;> rwa [effects_inRep]

end Operators

namespace Compile

variable {α β : Type} {ctx : BodyContext}

/-! ### Expressions -/

-- The equations for the code of expressions are made here, once for all the lemmas below.
attribute [local grind =] expr

/-- Code that uses what the tables of a moment give. -/
abbrev PlacedCode (ctx : BodyContext) (t : BodyState) (c : TypedCode) : Prop :=
  Within (Placed ctx t) c.effects

section Kinds

variable {span : Span}

theorem steady_unary {op : UnaryOp} {argument : Expr}
    (hargument : Steady ctx (PlacedCode ctx) (expr ctx argument))
    (hmember : match argument with
      | .member m => Steady ctx (fun t r => r.Within (Placed ctx t)) (member ctx m)
      | _ => True) :
    Steady ctx (PlacedCode ctx) (expr ctx (.unary span op argument)) := by
  have hplain : Steady ctx (PlacedCode ctx) (do return specializeUnary op (← expr ctx argument)) :=
    hargument.bind fun c => .pure fun _ hc => by rwa [PlacedCode, effects_unary]
  cases op with
  | delete =>
    cases argument with
    | identifier i =>
      rw [expr]
      exact (steady_identifier i).bind fun a => .pure fun _ ha => ha.effects
    | member m =>
      rw [expr]
      exact Steady.bind hmember fun r => .pure fun _ hr => hr.effects
    | _ => simpa only [expr] using hplain
  | typeOf =>
    cases argument with
    | identifier i =>
      rw [expr]
      refine (steady_identifier i).bind fun a => .pure fun _ ha => ?_
      rw [PlacedCode, effects_unary]
      exact within_load ha true
    | _ => simpa only [expr] using hplain
  | _ => simpa only [expr] using hplain

theorem steady_assign_name {op : AssignOp} {i : Identifier} {value : Expr}
    (hvalue : Steady ctx (PlacedCode ctx) (expr ctx value)) :
    Steady ctx (PlacedCode ctx) (expr ctx (.assign span op (.identifier i) value)) := by
  cases op with
  | plain =>
    rw [expr]
    exact (steady_identifier i).bind fun a => hvalue.bind fun v => .pure fun _ hv ha =>
      within_store ha hv
  | compound op =>
    rw [expr]
    refine (steady_identifier i).bind fun a => hvalue.bind fun v => ?_
    split
    · refine .pure fun _ hv ha => within_store ha ?_
      rw [effects_binary]
      exact within_append.mpr ⟨within_load ha false, hv⟩
    · refine .pure fun _ hv ha => ?_
      simpa [PlacedCode, effects_mk, Code.effects] using
        And.intro ha.effects (And.intro ha.reads (And.intro hv (ha.writes _)))

theorem steady_assign_member {op : AssignOp} {m : Member} {value : Expr}
    (hmember : Steady ctx (fun t r => r.Within (Placed ctx t)) (member ctx m))
    (hvalue : Steady ctx (PlacedCode ctx) (expr ctx value)) :
    Steady ctx (PlacedCode ctx) (expr ctx (.assign span op (.member m) value)) := by
  cases op with
  | plain =>
    rw [expr]
    refine hmember.bind fun r => hvalue.bind fun v => .pure fun _ hv hr => ?_
    simpa [PlacedCode, effects_mk, Code.effects] using
      And.intro hr.effects (And.intro hv (hr.writes _))
  | compound op =>
    rw [expr]
    refine hvalue.bind fun v => hmember.bind fun r => .pure fun _ hr hv => ?_
    simpa [PlacedCode, effects_mk, Code.effects] using
      And.intro hr.effects (And.intro hr.reads (And.intro hv (hr.writes _)))

theorem steady_call {callee : Expr} {arguments : List Expr}
    (hcallee : Steady ctx (PlacedCode ctx) (expr ctx callee))
    (hmember : match callee with
      | .member m => Steady ctx (fun t r => r.Within (Placed ctx t)) (member ctx m)
      | _ => True)
    (harguments : Steady ctx (fun t cs => Within (Placed ctx t) (listEffects cs))
      (exprList ctx arguments)) :
    Steady ctx (PlacedCode ctx) (expr ctx (.call span callee arguments)) := by
  have hplain : Steady ctx (PlacedCode ctx) (do
      let f ← expr ctx callee
      return ⟨.boxed, .call (f.inRep .boxed) (← exprList ctx arguments)⟩) := by
    refine hcallee.bind fun f => harguments.bind fun cs => .pure fun _ hcs hf => ?_
    simpa [PlacedCode, effects_mk, Code.effects] using And.intro hf hcs
  cases callee with
  | member m =>
    rw [expr]
    refine Steady.bind hmember fun r => harguments.bind fun cs => .pure fun _ hcs hr => ?_
    simpa [PlacedCode, effects_mk, Code.effects] using And.intro hr.effects (And.intro hr.reads hcs)
  | identifier i =>
    rw [expr]
    refine (steady_identifier i).bind fun a => harguments.bind fun cs => .pure fun _ hcs ha => ?_
    simpa [PlacedCode, effects_mk, Code.effects] using And.intro ha.effects (And.intro ha.reads hcs)
  | _ => simpa only [expr] using hplain

end Kinds

mutual

/-- The code of an expression is the same at every later moment, and uses what the tables give. -/
theorem steady_expr : ∀ e : Expr, Steady ctx (PlacedCode ctx) (expr ctx e)
  | .literal _ value => by
    rw [expr]
    exact .pure fun _ => by cases value <;> exact within_nil
  | .identifier i => by
    rw [expr]
    exact (steady_identifier i).bind fun a => .pure fun _ ha => within_load ha false
  | .this _ => by
    rw [expr]
    exact .pure fun _ => within_nil
  | .array _ elements => by
    rw [expr]
    exact (steady_elementList elements).bind fun _ => .pure fun _ h => h
  | .object _ properties => by
    rw [expr]
    exact (steady_propertyList properties).bind fun _ => .pure fun _ h => h
  | .function f => by
    rw [expr]
    exact (Steady.lift (func ctx.analysis f) fun _ _ => trivial).bind fun _ =>
      .pure fun _ _ => within_cons.mpr ⟨trivial, within_nil⟩
  | .unary _ _ argument => by
    have hargument := steady_expr argument
    cases argument with
    | member m => exact steady_unary hargument (steady_member m)
    | _ => exact steady_unary hargument trivial
  | .update _ op t before => by
    rw [expr]
    exact (steady_target t).bind fun _ => .pure fun _ h => within_stepCode h op before
  | .binary _ op left right => by
    rw [expr]
    refine (steady_expr left).bind fun l => (steady_expr right).bind fun r =>
      .pure fun _ hr hl => ?_
    rw [PlacedCode, effects_binary]
    exact within_append.mpr ⟨hl, hr⟩
  | .logical _ op left right => by
    rw [expr]
    refine (steady_expr left).bind fun l => (steady_expr right).bind fun r =>
      .pure fun _ hr hl => ?_
    simpa [PlacedCode, logicalCode, effects_mk, Code.effects] using And.intro hl hr
  | .assign _ _ (.identifier _) value => steady_assign_name (steady_expr value)
  | .assign _ _ (.member m) value => steady_assign_member (steady_member m) (steady_expr value)
  | .conditional _ test consequent alternate => by
    rw [expr]
    refine (steady_expr test).bind fun t => (steady_expr consequent).bind fun c =>
      (steady_expr alternate).bind fun a => .pure fun _ ha hc ht => ?_
    simpa [PlacedCode, conditionalCode, effects_mk, Code.effects] using And.intro ht
      (And.intro hc ha)
  | .call _ callee arguments => by
    have hcallee := steady_expr callee
    have harguments := steady_exprList arguments
    cases callee with
    | member m => exact steady_call hcallee (steady_member m) harguments
    | _ => exact steady_call hcallee trivial harguments
  | .construct _ callee arguments => by
    rw [expr]
    refine (steady_expr callee).bind fun f => (steady_exprList arguments).bind fun cs =>
      .pure fun _ hcs hf => ?_
    simpa [PlacedCode, effects_mk, Code.effects] using And.intro hf hcs
  | .sequence _ expressions => by
    rw [expr]
    refine (steady_typedList expressions).bind fun cs => ?_
    cases cs with
    | nil => exact .pure fun _ _ => within_nil
    | cons first rest => exact .pure fun _ h => within_sequenceCode h
  | .member m => by
    rw [expr]
    exact (steady_member m).bind fun _ => .pure fun _ h => within_append.mpr ⟨h.effects, h.reads⟩

theorem steady_typedList : ∀ es : List Expr,
    Steady ctx (fun t cs => ∀ c ∈ cs, PlacedCode ctx t c) (typedList ctx es)
  | [] => by
    rw [typedList]
    exact .pure fun _ => nofun
  | e :: rest => by
    rw [typedList]
    exact (steady_expr e).bind fun c => (steady_typedList rest).bind fun cs =>
      .pure fun _ hcs hc => List.forall_mem_cons.mpr ⟨hc, hcs⟩

theorem steady_exprList : ∀ es : List Expr,
    Steady ctx (fun t cs => Within (Placed ctx t) (listEffects cs)) (exprList ctx es)
  | [] => by
    rw [exprList]
    exact .pure fun _ => within_nil
  | e :: rest => by
    rw [exprList]
    refine (steady_expr e).bind fun c => (steady_exprList rest).bind fun cs =>
      .pure fun _ hcs hc => ?_
    simpa [listEffects] using ⟨hc, hcs⟩

theorem steady_elementList : ∀ es : List (Option Expr),
    Steady ctx (fun t cs => Within (Placed ctx t) (listEffects cs)) (elementList ctx es)
  | [] => by
    rw [elementList]
    exact .pure fun _ => within_nil
  | none :: rest => by
    rw [elementList]
    exact (steady_elementList rest).bind fun cs => .pure fun _ hcs => hcs
  | some e :: rest => by
    rw [elementList]
    refine (steady_expr e).bind fun c => (steady_elementList rest).bind fun cs =>
      .pure fun _ hcs hc => ?_
    simpa [listEffects] using ⟨hc, hcs⟩

theorem steady_propertyList : ∀ ps : List Property,
    Steady ctx (fun t cs => Within (Placed ctx t) (propertyEffects cs)) (propertyList ctx ps)
  | [] => by
    rw [propertyList]
    exact .pure fun _ => within_nil
  | .mk _ key value :: rest => by
    rw [propertyList]
    refine (steady_expr value).bind fun c => (steady_propertyList rest).bind fun cs =>
      .pure fun _ hcs hc => ?_
    simpa [propertyEffects] using ⟨hc, hcs⟩

theorem steady_member : ∀ m : Member, Steady ctx (fun t r => r.Within (Placed ctx t)) (member ctx m)
  | .named _ object property => by
    rw [member]
    refine (steady_expr object).bind fun o => .pure fun _ ho =>
      ⟨within_append.mpr ⟨?_, within_nil⟩, within_nil⟩
    rwa [effects_inRep]
  | .computed _ object property => by
    rw [member]
    exact (steady_expr object).bind fun o => (steady_expr property).bind fun p =>
      .pure fun _ hp ho => within_member ho hp

theorem steady_target : ∀ t : Target, Steady ctx (fun s r => r.Within (Placed ctx s)) (target ctx t)
  | .identifier i => by
    rw [target]
    exact (steady_identifier i).bind fun _ => .pure fun _ h => h
  | .member m => by
    rw [target]
    exact steady_member m

end

/-! ### Entries of bodies -/

/-- Statements that only evaluate code that uses what the tables of a moment give. -/
def PlacedEntry (ctx : BodyContext) (t : BodyState) (cs : List StatementCode) : Prop :=
  ∀ c ∈ cs, ∃ code : TypedCode, c = code.effect ∧ PlacedCode ctx t code

theorem placedEntry_append {t : BodyState} {cs ds : List StatementCode} (hc : PlacedEntry ctx t cs)
    (hd : PlacedEntry ctx t ds) : PlacedEntry ctx t (cs ++ ds) :=
  List.forall_mem_append.mpr ⟨hc, hd⟩

theorem steady_selfEntry : Steady ctx (PlacedEntry ctx) (selfEntry ctx) := by
  unfold selfEntry
  split
  · refine (steady_access _).bind fun a => .pure fun t ha => ?_
    have hinit : (Reference.name a.initializer).Within (Placed ctx t) := ⟨ha.effects, ha.reads⟩
    exact List.forall_mem_singleton.mpr ⟨_, rfl, within_store hinit within_nil⟩
  · exact .pure fun _ => nofun

theorem steady_declaredFunction (name : Identifier) (code : FunctionCode) :
    Steady ctx (fun t c => PlacedEntry ctx t [c]) (declaredFunction ctx name code) := by
  refine (steady_identifier name).bind fun a => .pure fun t ha => ?_
  refine List.forall_mem_singleton.mpr ⟨_, rfl, within_store ha ?_⟩
  exact within_cons.mpr ⟨trivial, within_nil⟩

theorem hoist_function (f : Func) : hoist ctx (.function f) =
    match f.identifier? with
    | some name => do
      let code ← func ctx.analysis f
      return [← declaredFunction ctx name code]
    | none => pure [] := rfl

/-- The code that makes the functions declared in a `catch` clause, if there is one. -/
def hoistHandler (ctx : BodyContext) : Option Handler → Compile (List StatementCode)
  | some (.mk _ _ b) => hoistBlock ctx b
  | none => pure []

/-- The code that makes the functions declared in a `finally` clause, if there is one. -/
def hoistFinalizer (ctx : BodyContext) : Option Block → Compile (List StatementCode)
  | some b => hoistBlock ctx b
  | none => pure []

theorem hoist_tryCatch (span : Span) (b : Block) (h : Option Handler) (f : Option Block) :
    hoist ctx (.tryCatch span b h f) = (do
      let first ← hoistBlock ctx b
      let handled ← hoistHandler ctx h
      let finished ← hoistFinalizer ctx f
      return first ++ handled ++ finished) := by
  cases h with
  | none => cases f <;> rfl
  | some h => cases h; cases f <;> rfl

mutual

theorem steady_hoistList : ∀ ss : List Stmt, Steady ctx (PlacedEntry ctx) (hoistList ctx ss)
  | [] => .pure fun _ => nofun
  | s :: rest =>
    (steady_hoist s).bind fun _ => (steady_hoistList rest).bind fun _ =>
      .pure fun _ hrest hs => placedEntry_append hs hrest

theorem steady_hoistBlock : ∀ b : Block, Steady ctx (PlacedEntry ctx) (hoistBlock ctx b)
  | .mk _ body => steady_hoistList body

theorem steady_hoistClauses :
    ∀ cs : List SwitchClause, Steady ctx (PlacedEntry ctx) (hoistClauses ctx cs)
  | [] => .pure fun _ => nofun
  | .mk _ _ body :: rest =>
    (steady_hoistList body).bind fun _ => (steady_hoistClauses rest).bind fun _ =>
      .pure fun _ hrest hbody => placedEntry_append hbody hrest

theorem steady_hoist : ∀ s : Stmt, Steady ctx (PlacedEntry ctx) (hoist ctx s)
  | .function f => by
    rw [hoist_function]
    split
    · exact (Steady.lift (func ctx.analysis f) fun _ _ => trivial).bind fun code =>
        (steady_declaredFunction _ code).bind fun _ => .pure fun _ h _ => h
    · exact .pure fun _ => nofun
  | .block b => steady_hoistBlock b
  | .labeled _ _ body => steady_hoist body
  | .while _ _ body => steady_hoist body
  | .doWhile _ _ body => steady_hoist body
  | .with _ _ _ body => steady_hoist body
  | .conditional _ _ c none => steady_hoist c
  | .conditional _ _ c (some a) =>
    (steady_hoist c).bind fun _ => (steady_hoist a).bind fun _ =>
      .pure fun _ ha hc => placedEntry_append hc ha
  | .for _ _ _ _ body => steady_hoist body
  | .forIn _ _ _ body => steady_hoist body
  | .switch _ _ clauses => steady_hoistClauses clauses
  | .tryCatch _ b h f => by
    have hhandled : Steady ctx (PlacedEntry ctx) (hoistHandler ctx h) := by
      cases h with
      | none => exact .pure fun _ => nofun
      | some h =>
        cases h with
        | mk _ _ hb => exact steady_hoistBlock hb
    have hfinished : Steady ctx (PlacedEntry ctx) (hoistFinalizer ctx f) := by
      cases f with
      | none => exact .pure fun _ => nofun
      | some f => exact steady_hoistBlock f
    rw [hoist_tryCatch]
    exact (steady_hoistBlock b).bind fun _ => hhandled.bind fun _ => hfinished.bind fun _ =>
      .pure fun _ hf hh hb => placedEntry_append (placedEntry_append hb hh) hf
  | .expression .. => .pure fun _ => nofun
  | .empty _ => .pure fun _ => nofun
  | .debugger _ => .pure fun _ => nofun
  | .ret .. => .pure fun _ => nofun
  | .brk .. => .pure fun _ => nofun
  | .cont .. => .pure fun _ => nofun
  | .throw .. => .pure fun _ => nofun
  | .declaration .. => .pure fun _ => nofun

end

/-! ### What holds later -/

theorem except_bind_eq_ok {ε α β : Type} {x : Except ε α} {f : α → Except ε β} {b : β}
    (h : (x >>= f) = .ok b) : ∃ a, x = .ok a ∧ f a = .ok b := by
  cases x with
  | ok a => exact ⟨a, rfl, h⟩
  | error e => cases h

/-- A computation keeps what has been given, and at every later moment `R` holds of its result. -/
def Ensures (ctx : BodyContext) (R : BodyState → α → Prop) (x : Compile α) : Prop :=
  ∀ ⦃s a s'⦄, x s = .ok (a, s') →
    s.Grows ctx s' ∧ (s.Sound ctx → ∀ ⦃given⦄, s'.Grows ctx given → R given a)

namespace Ensures

variable {R : BodyState → α → Prop} {R' : BodyState → β → Prop} {x : Compile α}

theorem of_steady {Q : BodyState → α → Prop} (h : Steady ctx Q x) :
    Ensures ctx (fun given a => x given = .ok (a, given) ∧ Q given a) x := by
  intro s a s' hx
  obtain ⟨hgrows, hlater⟩ := h hx
  exact ⟨hgrows, fun _ given hgiven => hlater hgiven⟩

theorem pure {a : α} (h : ∀ given, R given a) : Ensures ctx R (pure a : Compile α) := by
  intro s b s' hx
  cases hx
  exact ⟨.refl s, fun _ given _ => h given⟩

theorem mono {R' : BodyState → α → Prop} (h : Ensures ctx R x)
    (hR : ∀ given a, R given a → R' given a) :
    Ensures ctx R' x := by
  intro s a s' hx
  obtain ⟨hgrows, hlater⟩ := h hx
  exact ⟨hgrows, fun hs given hgiven => hR given a (hlater hs hgiven)⟩

theorem throw (e : StaticError) : Ensures ctx R (throw e : Compile α) := by
  intro s b s' hx
  cases hx

theorem bind {f : α → Compile β} (hx : Ensures ctx R x)
    (hf : ∀ a, Ensures ctx (fun given b => R given a → R' given b) (f a)) :
    Ensures ctx R' (x >>= f) := by
  intro s b s'' h
  obtain ⟨a, s', hxa, hfb⟩ := bind_eq_ok h
  obtain ⟨hgrows, hlater⟩ := hx hxa
  obtain ⟨hgrows', hlater'⟩ := hf a hfb
  refine ⟨hgrows.trans hgrows', fun hs given hgiven => ?_⟩
  exact hlater' (hgrows.sound hs) hgiven (hlater hs (hgrows'.trans hgiven))

end Ensures

/-- A new slot for values is hidden, and there is room for it. -/
theorem ensures_newSlot :
    Ensures ctx (fun given x => given.Hidden x.index ∧ x.index < given.values)
      (newSlot .boxed) := by
  intro s x s' h
  cases h
  refine ⟨s.grows_grow .boxed, fun hs given hgiven => ⟨hgiven.hidden hs, ?_⟩⟩
  have hcount := hgiven.count .boxed
  rw [BodyState.count_grow, if_pos rfl] at hcount
  exact hcount

/-! ### Code in parts -/

section

variable {j : Jumps}

/-- The place that a `for`-`in` loop writes. -/
def forInPlace (ctx : BodyContext) : ForInTarget → Compile Reference
  | .declaration i => do return .name (← identifier ctx i)
  | .target t => target ctx t

/-- The code that keeps the object of a `with` statement. -/
def withEntry (ctx : BodyContext) (id : NodeId) (object : Expr) : Compile TypedCode := do
  match ctx.analysis.withVariable? id with
  | none => throw (.unresolvedIdentifier s!"%with@{id}")
  | some v =>
    let a ← access ctx v
    let o ← expr ctx object
    return a.store ⟨.boxed, .unary .object (o.inRep .boxed)⟩

/-- The code of the first part of the head of a `for` loop. -/
def forInit (ctx : BodyContext) : ForInit → Compile (List StatementCode)
  | .nothing => pure []
  | .declaration _ ds => declaratorList ctx ds
  | .expression e => do
    let c ← expr ctx e
    return [c.effect]

/-- The code of the test of a `for` loop. -/
def forTest (ctx : BodyContext) : Option Expr → Compile (Code .boolean)
  | some e => do
    let c ← expr ctx e
    return c.inRep .boolean
  | none => pure (.constant true)

/-- The code of the update of a `for` loop. -/
def forUpdate (ctx : BodyContext) : Option Expr → Compile StatementCode
  | some e => do
    let c ← expr ctx e
    return c.effect
  | none => pure .skip

theorem steady_forInPlace (left : ForInTarget) :
    Steady ctx (fun t r => r.Within (Placed ctx t)) (forInPlace ctx left) := by
  cases left with
  | declaration i => exact (steady_identifier i).bind fun _ => .pure fun _ h => h
  | target t => exact steady_target t

theorem steady_withEntry (id : NodeId) (object : Expr) :
    Steady ctx (PlacedCode ctx) (withEntry ctx id object) := by
  unfold withEntry
  split
  · exact .throw _
  · refine (steady_access _).bind fun a => (steady_expr object).bind fun o => .pure fun t ho ha =>
      within_store ha ?_
    simpa [effects_mk, Code.effects] using ho

/-- Statements that give declared variables their values. -/
theorem steady_declaratorList (ds : List Declarator) :
    Steady ctx (PlacedEntry ctx) (declaratorList ctx ds) := by
  induction ds with
  | nil =>
    rw [declaratorList]
    exact .pure fun _ => List.forall_mem_nil _
  | cons d rest ih =>
    obtain ⟨span, name, init⟩ := d
    cases init with
    | none =>
      rw [declaratorList]
      exact ih
    | some init =>
      rw [declaratorList]
      refine (steady_identifier name).bind fun a => (steady_expr init).bind fun v =>
        ih.bind fun cs => .pure fun t hcs hv ha => ?_
      exact placedEntry_append (List.forall_mem_singleton.mpr ⟨_, rfl, within_store ha hv⟩) hcs

theorem steady_forInit (init : ForInit) : Steady ctx (PlacedEntry ctx) (forInit ctx init) := by
  cases init with
  | nothing => exact .pure fun _ => nofun
  | declaration span ds => exact steady_declaratorList ds
  | expression e =>
    exact (steady_expr e).bind fun c => .pure fun t hc => List.forall_mem_singleton.mpr ⟨c, rfl, hc⟩

theorem steady_forTest (test : Option Expr) :
    Steady ctx (fun t c => Within (Placed ctx t) c.effects) (forTest ctx test) := by
  cases test with
  | none => exact .pure fun _ => within_nil
  | some e => exact (steady_expr e).bind fun c => .pure fun t hc => by rwa [effects_inRep]

theorem stmt_ret_none (span : Span) : stmt ctx j (.ret span none) =
    if ctx.isProgram then throw .illegalReturn else pure (.ret (.constant .undefined)) := rfl

theorem stmt_ret_some (span : Span) (e : Expr) : stmt ctx j (.ret span (some e)) =
    if ctx.isProgram then throw .illegalReturn else do
      let c ← expr ctx e
      return .ret (c.inRep .boxed) := rfl

theorem stmt_labeled (span : Span) (label : String) (body : Stmt) :
    stmt ctx j (.labeled span label body) =
      match j.label label with
      | .error e => throw e
      | .ok labeled =>
        if body.takesLabels then stmt ctx labeled body
        else do return .labeled labeled.nextId (← stmt ctx (labeled.enter .labeled) body) := rfl

theorem stmt_for (span : Span) (init : ForInit) (test update : Option Expr) (body : Stmt) :
    stmt ctx j (.for span init test update body) = (do
      let first ← forInit ctx init
      let t ← forTest ctx test
      let u ← forUpdate ctx update
      let b ← stmt ctx (j.enter .loop) body
      return .block (first ++ [.loop j.nextId t u b])) := by
  cases init <;> cases test <;> cases update <;>
    simp only [forInit, forTest, forUpdate, bind_assoc, pure_bind] <;> rfl

/-- The code of statements with a `catch` clause, if there is one. -/
def caught (ctx : BodyContext) (j : Jumps) (body : StatementCode) :
    Option Handler → Compile StatementCode
  | some h => handler ctx j body h
  | none => pure body

/-- The code of statements with a `finally` clause, if there is one. -/
def finished (ctx : BodyContext) (j : Jumps) (body : StatementCode) :
    Option Block → Compile StatementCode
  | some f => do return .tryFinally body (← block ctx j f)
  | none => pure body

theorem stmt_tryCatch (span : Span) (b : Block) (h : Option Handler) (f : Option Block) :
    stmt ctx j (.tryCatch span b h f) = (do
      let body ← block ctx j b
      let body ← caught ctx j body h
      finished ctx j body f) := by
  cases h <;> cases f <;> simp only [caught, finished, pure_bind] <;> rfl

theorem stmt_forIn (span : Span) (left : ForInTarget) (right : Expr) (body : Stmt) :
    stmt ctx j (.forIn span left right body) = (do
      let place ← forInPlace ctx left
      let o ← expr ctx right
      let b ← stmt ctx (j.enter .loop) body
      return .forIn j.nextId place (o.inRep .boxed) b) := by
  cases left <;> simp only [forInPlace, bind_assoc, pure_bind] <;> rfl

theorem stmt_with (span : Span) (id : NodeId) (object : Expr) (body : Stmt) :
    stmt ctx j (.with span id object body) = (do
      let c ← withEntry ctx id object
      let b ← stmt ctx j body
      return .block [c.effect, b]) := by
  have hstmt : stmt ctx j (.with span id object body) =
      match ctx.analysis.withVariable? id with
      | none => throw (.unresolvedIdentifier s!"%with@{id}")
      | some v => do
        let a ← access ctx v
        let o ← expr ctx object
        let b ← stmt ctx j body
        return .block [(a.store ⟨.boxed, .unary .object (o.inRep .boxed)⟩).effect, b] := rfl
  rw [hstmt, withEntry]
  cases ctx.analysis.withVariable? id with
  | none => rfl
  | some v => simp only [bind_assoc, pure_bind]

end

end Compile

end ScriptEngine
