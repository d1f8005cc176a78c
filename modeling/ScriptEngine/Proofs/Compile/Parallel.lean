import Mathlib.Data.List.Forall2
import ScriptEngine.Proofs.Analysis.Capture
import ScriptEngine.Proofs.Compile.Stability

/-!
# Compilation with and without types

A body can be compiled with the types that were inferred for its variables, or with no type known.
The two compilations go through the same steps: they give places to the same variables in the same
order, number the same records, and fail with the same error.  Only the kinds of the slots differ.

## Main definitions

* `BodyContext.untyped` : the context of a body of whose variables no type is known.
* `BodyState.Parallel` : states in which the same variables have places.
* `Compile.Parallel` : computations that go through the same steps.
* `Storage.Parallel`, `Access.Parallel` : what a variable and a name are compiled to.

## Main statements

* `analyze_untyped` : the tables without types are those with types, the types being dropped.
* `Compile.parallel_identifier` : names are looked up in the same way.
-/

namespace ScriptEngine

/-! ### Tables without types -/

namespace Analysis

variable (a : Analysis)

theorem untyped_setTypes (types : Array ValueType) : (a.setTypes types).untyped = a.untyped := by
  unfold setTypes untyped
  simp only [mk.injEq, and_self, and_true]
  ext i <;> simp

/-- No variable has a representation of its own if no type is known. -/
theorem ofValueType_untyped (v : VariableId) :
    Rep.ofValueType (a.untyped.var v).valueType = .boxed := by
  unfold untyped var
  dsimp only
  rw [Array.getElem?_map]
  cases a.vars[v]? with
  | none => rfl
  | some x => rfl

theorem layoutChain_untyped (fuel : Nat) (id : Option LayoutId) :
    a.untyped.layoutChain fuel id = a.layoutChain fuel id := by
  induction fuel generalizing id with
  | zero => rfl
  | succ fuel ih =>
    cases id with
    | none => rfl
    | some id => exact congrArg (id :: ·) (ih _)

end Analysis

/-- Without inference, the tables are those with the inferred types, the types being dropped. -/
theorem analyze_untyped (p : Program) (strict : Bool) :
    analyze p ⟨strict, false⟩ = (analyze p ⟨strict, true⟩).map Analysis.untyped := by
  unfold analyze
  cases Resolve.program strict p with
  | error e => rfl
  | ok r => exact congrArg Except.ok (r.withLayouts.untyped_setTypes _).symm

/-- The context of a body of whose variables no type is known. -/
def BodyContext.untyped (ctx : BodyContext) : BodyContext :=
  { ctx with analysis := ctx.analysis.untyped }

theorem BodyContext.ofBody_untyped (a : Analysis) (id : FunctionId) (isProgram : Bool) :
    BodyContext.ofBody a.untyped id isProgram = (BodyContext.ofBody a id isProgram).untyped := by
  unfold ofBody untyped
  simp only [mk.injEq, true_and]
  rw [a.layoutChain_untyped]
  congr 1

/-! ### Places -/

/-- States in which the same variables have slots and the same records have numbers. -/
structure BodyState.Parallel (s t : BodyState) : Prop where
  hops : s.hops = t.hops
  slots : ∀ v, (s.slot? v).isSome = (t.slot? v).isSome

/-- The places that a body has been given with types, and those that it has been given without. -/
structure BodyContext.Places (ctx : BodyContext) (given given' : BodyState) : Prop where
  parallel : given.Parallel given'
  typed : given.Sound ctx
  untyped : given'.Sound ctx.untyped

/-- Without types all slots are for values. -/
theorem BodyContext.Places.boxed {ctx : BodyContext} {given given' : BodyState}
    (h : ctx.Places given given') {v : VariableId} {x : Slot} (hx : given'.slot? v = some x) :
    x.rep = .boxed :=
  (h.untyped.kind v x hx).trans (ctx.analysis.ofValueType_untyped v)

section

variable (given given' : BodyState)

/-- What one variable is kept in: the same place, or the slots that the two states have for it. -/
inductive Storage.Parallel : Storage → Storage → Prop where
  | global (name : String) : Parallel (.global name) (.global name)
  | parameter (index : Nat) (via : Option FieldAddress) :
    Parallel (.parameter index via) (.parameter index via)
  | field (address : FieldAddress) : Parallel (.field address) (.field address)
  | slot {v : VariableId} {x y : Slot} (hx : given.slot? v = some x)
    (hy : given'.slot? v = some y) :
    Parallel (.slot x.rep x.index) (.slot y.rep y.index)

/-- What one variable is bound to. -/
structure Binding.Parallel (b b' : Binding) : Prop where
  storage : b.storage.Parallel given given' b'.storage
  constant : b.constant = b'.constant

/-- What one name is compiled to. -/
structure Access.Parallel (a a' : Access) : Prop where
  name : a.name = a'.name
  scopes : List.Forall₂ (Binding.Parallel given given') a.scopes a'.scopes
  binding : a.binding.Parallel given given' a'.binding

end

namespace Compile

variable {α β γ δ : Type} {ctx : BodyContext}

/-- Two computations of the compilation of a body, the first one with types and the second one
without, go through the same steps.  Both fail with the same error, or both succeed, and `R` holds
of their results with the places that are given in the end. -/
def Parallel (ctx : BodyContext) (R : BodyState → BodyState → α → β → Prop) (x : Compile α)
    (y : Compile β) : Prop :=
  ∀ ⦃s t⦄, s.Parallel t →
    (∃ e, x s = .error e ∧ y t = .error e) ∨
    ∃ a s' b t', x s = .ok (a, s') ∧ y t = .ok (b, t') ∧ s.Grows ctx s' ∧ t.Grows ctx.untyped t' ∧
      s'.Parallel t' ∧ ∀ ⦃given given'⦄, s'.Grows ctx given → t'.Grows ctx.untyped given' →
        ctx.Places given given' → R given given' a b

namespace Parallel

variable {R R' : BodyState → BodyState → α → β → Prop} {R'' : BodyState → BodyState → γ → δ → Prop}
  {x : Compile α} {y : Compile β}

theorem pure {a : α} {b : β} (h : ∀ given given', ctx.Places given given' → R given given' a b) :
    Parallel ctx R (pure a : Compile α) (pure b : Compile β) :=
  fun s t hst => .inr ⟨a, s, b, t, rfl, rfl, .refl s, .refl t, hst, fun given given' _ _ =>
    h given given'⟩

theorem throw (e : StaticError) : Parallel ctx R (throw e : Compile α) (throw e : Compile β) :=
  fun _ _ _ => .inl ⟨e, rfl, rfl⟩

theorem mono (h : Parallel ctx R x y)
    (hR : ∀ given given' a b, ctx.Places given given' → R given given' a b → R' given given' a b) :
    Parallel ctx R' x y := by
  intro s t hst
  rcases h hst with herror | ⟨a, s', b, t', hx, hy, hs, ht, hst', hlater⟩
  · exact .inl herror
  · exact .inr ⟨a, s', b, t', hx, hy, hs, ht, hst', fun given given' hgiven hgiven' hp =>
      hR _ _ _ _ hp (hlater hgiven hgiven' hp)⟩

/-- What comes after the computations goes through the same steps, too. -/
theorem bind {f : α → Compile γ} {g : β → Compile δ} (h : Parallel ctx R x y)
    (hf : ∀ a b, Parallel ctx (fun given given' c d => R given given' a b → R'' given given' c d)
      (f a) (g b)) :
    Parallel ctx R'' (x >>= f) (y >>= g) := by
  intro s t hst
  rcases h hst with ⟨e, hx, hy⟩ | ⟨a, s', b, t', hx, hy, hs, ht, hst', hlater⟩
  · refine .inl ⟨e, ?_, ?_⟩
    · change (x s >>= fun p => f p.1 p.2) = _
      rw [hx]
      rfl
    · change (y t >>= fun p => g p.1 p.2) = _
      rw [hy]
      rfl
  · have hxf : (x >>= f) s = f a s' := by
      change (x s >>= fun p => f p.1 p.2) = _
      rw [hx]
      rfl
    have hyg : (y >>= g) t = g b t' := by
      change (y t >>= fun p => g p.1 p.2) = _
      rw [hy]
      rfl
    rw [hxf, hyg]
    rcases hf a b hst' with herror | ⟨c, s'', d, t'', hfa, hgb, hs', ht', hst'', hlater'⟩
    · exact .inl herror
    · refine .inr ⟨c, s'', d, t'', hfa, hgb, hs.trans hs', ht.trans ht', hst'', ?_⟩
      exact fun given given' hgiven hgiven' hp =>
        hlater' hgiven hgiven' hp (hlater (hs'.trans hgiven) (ht'.trans hgiven') hp)

/-- The results are those that the computations have later, too. -/
theorem steady {Q : BodyState → α → Prop} {Q' : BodyState → β → Prop} (h : Parallel ctx R x y)
    (hx : Steady ctx Q x) (hy : Steady ctx.untyped Q' y) :
    Parallel ctx (fun given given' a b => x given = .ok (a, given) ∧ y given' = .ok (b, given') ∧
      R given given' a b) x y := by
  intro s t hst
  rcases h hst with herror | ⟨a, s', b, t', hxs, hyt, hs, ht, hst', hlater⟩
  · exact .inl herror
  · exact .inr ⟨a, s', b, t', hxs, hyt, hs, ht, hst', fun given given' hgiven hgiven' hp =>
      ⟨((hx hxs).2 hgiven).1, ((hy hyt).2 hgiven').1, hlater hgiven hgiven' hp⟩⟩

/-- Computations on no state. -/
theorem lift {x : Except StaticError α} {y : Except StaticError β}
    (h : (∃ e, x = .error e ∧ y = .error e) ∨ ∃ a b, x = .ok a ∧ y = .ok b) :
    Parallel ctx (fun _ _ a b => x = .ok a ∧ y = .ok b) (liftM x) (liftM y) := by
  rcases h with ⟨e, rfl, rfl⟩ | ⟨a, b, rfl, rfl⟩
  · exact fun _ _ _ => .inl ⟨e, rfl, rfl⟩
  · exact fun s t hst =>
      .inr ⟨a, s, b, t, rfl, rfl, .refl s, .refl t, hst, fun _ _ _ _ _ => ⟨rfl, rfl⟩⟩

end Parallel

/-- The target of a jump does not depend on types. -/
theorem parallel_jump (target : Except StaticError TargetId) :
    Parallel ctx (fun _ _ _ _ => True) (jump target) (jump target) := by
  cases target with
  | ok t => exact .pure fun _ _ _ => trivial
  | error e => exact .throw e

/-! ### Slots and records -/

theorem parallel_newSlot :
    Parallel ctx (fun _ _ _ _ => True) (newSlot .boxed) (newSlot .boxed) := by
  intro s t hst
  refine .inr ⟨_, _, _, _, rfl, rfl, s.grows_grow .boxed, t.grows_grow .boxed,
    ⟨hst.hops, fun v => ?_⟩, fun _ _ _ _ _ => trivial⟩
  rw [BodyState.slot?_grow, BodyState.slot?_grow]
  exact hst.slots v

theorem parallel_slot (v : VariableId) :
    Parallel ctx (fun given given' x y => given.slot? v = some x ∧ given'.slot? v = some y)
      (slot ctx v) (slot ctx.untyped v) := by
  intro s t hst
  have hsome := hst.slots v
  have hlater {x : Slot} {s' : BodyState} (hs : slot ctx v s = .ok (x, s')) {y : Slot}
      {t' : BodyState}
      (ht : slot ctx.untyped v t = .ok (y, t')) (hst' : s'.Parallel t') :
      (∃ e, slot ctx v s = .error e ∧ slot ctx.untyped v t = .error e) ∨
      ∃ x s' y t', slot ctx v s = .ok (x, s') ∧ slot ctx.untyped v t = .ok (y, t') ∧
        s.Grows ctx s' ∧
        t.Grows ctx.untyped t' ∧ s'.Parallel t' ∧ ∀ ⦃given given'⦄, s'.Grows ctx given →
          t'.Grows ctx.untyped given' → ctx.Places given given' →
            given.slot? v = some x ∧ given'.slot? v = some y :=
    .inr ⟨x, s', y, t', hs, ht, (steady_slot v hs).1, (steady_slot v ht).1, hst',
      fun given given' hgiven hgiven' _ =>
        ⟨((steady_slot v hs).2 hgiven).2, ((steady_slot v ht).2 hgiven').2⟩⟩
  cases hs : s.slot? v with
  | some x =>
    obtain ⟨y, ht⟩ := Option.isSome_iff_exists.mp (hsome.symm.trans (by rw [hs]; rfl))
    exact hlater (slot_of_some hs) (slot_of_some ht) hst
  | none =>
    have ht : t.slot? v = none := by
      rw [← Option.not_isSome_iff_eq_none, ← hsome, hs]
      exact Bool.false_ne_true
    refine hlater (slot_of_none hs) (slot_of_none ht) ⟨?_, fun w => ?_⟩
    · cases Rep.ofValueType (ctx.analysis.var v).valueType <;>
        cases Rep.ofValueType (ctx.untyped.analysis.var v).valueType <;> exact hst.hops
    · rw [BodyState.slot?_cons, BodyState.slot?_cons, BodyState.slot?_grow, BodyState.slot?_grow]
      split
      · rfl
      · exact hst.slots w

theorem parallel_recordNumber (hops : Nat) :
    Parallel ctx (fun _ _ n m => n = m) (recordNumber hops) (recordNumber hops) := by
  intro s t hst
  have hlater {n : Nat} {s' t' : BodyState} (hs : recordNumber hops s = .ok (n, s'))
      (ht : recordNumber hops t = .ok (n, t')) (hst' : s'.Parallel t') :
      (∃ e, recordNumber hops s = .error e ∧ recordNumber hops t = .error e) ∨
      ∃ n s' m t', recordNumber hops s = .ok (n, s') ∧ recordNumber hops t = .ok (m, t') ∧
        s.Grows ctx s' ∧
        t.Grows ctx.untyped t' ∧ s'.Parallel t' ∧ ∀ ⦃given given'⦄, s'.Grows ctx given →
          t'.Grows ctx.untyped given' → ctx.Places given given' → n = m :=
    .inr ⟨n, s', n, t', hs, ht, (steady_recordNumber hops hs).1,
      (steady_recordNumber hops ht).1, hst', fun _ _ _ _ _ => rfl⟩
  cases hs : s.hops.findIdx? (· == hops) with
  | some n => exact hlater (recordNumber_of_some hs) (recordNumber_of_some (hst.hops ▸ hs)) hst
  | none =>
    have ht : t.hops.findIdx? (· == hops) = none := hst.hops ▸ hs
    have hnew := recordNumber_of_none ht
    rw [← hst.hops] at hnew
    exact hlater (recordNumber_of_none hs) hnew ⟨rfl, hst.slots⟩

theorem parallel_fieldAddress (f : RecordField) :
    Parallel ctx (fun _ _ a b => a = b) (fieldAddress ctx f) (fieldAddress ctx.untyped f) := by
  unfold fieldAddress
  rw [show ctx.untyped.chain = ctx.chain from rfl]
  split
  · exact (parallel_recordNumber _).bind fun n m => .pure fun _ _ _ hnm => by rw [hnm]
  · exact .throw _

/-! ### Names -/

theorem parallel_storage (v : VariableId) :
    Parallel ctx (fun given given' x y => x.Parallel given given' y) (storage ctx v)
      (storage ctx.untyped v) := by
  obtain ⟨t, hv⟩ := ctx.analysis.var_untyped v
  have hfield (f : RecordField) :
      Parallel ctx (fun given given' x y => Storage.Parallel given given' x y)
      (do return .field (← fieldAddress ctx f)) (do return .field (← fieldAddress ctx.untyped f)) :=
    (parallel_fieldAddress f).bind fun address _ => .pure fun _ _ _ h => h ▸ .field address
  have hslot : Parallel ctx (fun given given' x y => Storage.Parallel given given' x y)
      (do
        let slot ← slot ctx v
        return .slot slot.rep slot.index)
      (do
        let slot ← slot ctx.untyped v
        return .slot slot.rep slot.index) :=
    (parallel_slot v).bind fun _ _ => .pure fun _ _ _ h => .slot h.1 h.2
  unfold storage
  rw [show ctx.untyped.analysis.var v = _ from hv, show ctx.untyped.id = ctx.id from rfl]
  dsimp only
  split
  · exact .pure fun _ _ _ => .global _
  · split
    · exact .pure fun _ _ _ => .parameter _ _
    · split
      · next f _ =>
        exact (parallel_fieldAddress f).bind fun address _ => .pure fun _ _ _ h =>
          h ▸ .parameter _ (some address)
      · exact .throw _
  iterate 2
    split
    · exact hfield _
    · split
      · exact hslot
      · exact .throw _
  · exact .throw _
  · exact .throw _

theorem parallel_binding (v : VariableId) :
    Parallel ctx (fun given given' b c => b.Parallel given given' c) (binding ctx v)
      (binding ctx.untyped v) := by
  obtain ⟨t, hv⟩ := ctx.analysis.var_untyped v
  unfold binding
  rw [show ctx.untyped.analysis.var v = _ from hv]
  exact (parallel_storage v).bind fun _ _ => .pure fun _ _ _ h => ⟨h, rfl⟩

theorem parallel_bindings : ∀ vs : List VariableId,
    Parallel ctx (fun given given' bs cs => List.Forall₂ (Binding.Parallel given given') bs cs)
      (bindings ctx vs) (bindings ctx.untyped vs)
  | [] => .pure fun _ _ _ => .nil
  | v :: rest =>
    (parallel_binding v).bind fun _ _ => (parallel_bindings rest).bind fun _ _ =>
      .pure fun _ _ _ hbs hb => .cons hb hbs

theorem parallel_access (v : VariableId) :
    Parallel ctx (fun given given' a b => a.Parallel given given' b) (access ctx v)
      (access ctx.untyped v) := by
  obtain ⟨t, hv⟩ := ctx.analysis.var_untyped v
  unfold access
  rw [show ctx.untyped.analysis.var v = _ from hv]
  dsimp only
  split
  · split
    · exact (parallel_bindings _).bind fun _ _ => (parallel_binding _).bind fun _ _ =>
        .pure fun _ _ _ hb hscopes => ⟨rfl, hscopes, hb⟩
    · exact .throw _
  · exact (parallel_binding v).bind fun _ _ => .pure fun _ _ _ hb => ⟨rfl, .nil, hb⟩

theorem parallel_identifier (i : Identifier) :
    Parallel ctx (fun given given' a b => a.Parallel given given' b) (identifier ctx i)
      (identifier ctx.untyped i) := by
  unfold identifier
  rw [show ctx.untyped.analysis.reference? i = ctx.analysis.reference? i from rfl]
  split
  · exact parallel_access _
  · exact .throw _

end Compile

end ScriptEngine
