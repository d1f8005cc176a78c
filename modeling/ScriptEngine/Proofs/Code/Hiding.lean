import ScriptEngine.Proofs.Code.Effect

/-!
# Hidden slots

Code that does not use some of the slots does the same whatever these slots hold, and leaves them as
they are.

## Main definitions

* `Within` : what the variables that code uses satisfy.
* `Storage.Shown`, `Shows` : no slot among the hidden ones is used.
* `RunState.Hides` : states that differ in hidden slots only.
* `RunState.Ignores` : computations that hidden slots do not matter for.

## Main statements

* `RunState.ignores_code` : code that uses no hidden slot.
* `RunState.ignores_assign` : writing to a place that is no hidden slot.
-/

namespace ScriptEngine

/-! ### What code uses -/

/-- A variable that an effect reads or writes satisfies `P`. -/
def Effect.Within (P : Storage → Prop) : Effect → Prop
  | .read storage => P storage
  | .write storage _ => P storage
  | .function _ => True

/-- The variables that effects read or write satisfy `P`. -/
def Within (P : Storage → Prop) (effects : List Effect) : Prop :=
  ∀ e ∈ effects, e.Within P

/-- A variable is not kept in one of the hidden slots. -/
def Storage.Shown (hidden : Nat → Prop) : Storage → Prop
  | .slot .boxed i => ¬ hidden i
  | _ => True

section Within

variable {P P' : Storage → Prop} {l l' : List Effect}

@[simp] theorem within_nil : Within P [] := nofun

@[simp] theorem within_append : Within P (l ++ l') ↔ Within P l ∧ Within P l' :=
  List.forall_mem_append

@[simp] theorem within_cons {e : Effect} : Within P (e :: l) ↔ e.Within P ∧ Within P l :=
  List.forall_mem_cons

theorem Within.mono (h : Within P l) (hP : ∀ storage, P storage → P' storage) : Within P' l := by
  intro e he
  cases e with
  | read storage => exact hP storage (h _ he)
  | write storage source => exact hP storage (h _ he)
  | function f => trivial

/-- The variables that a reference uses satisfy `P`. -/
structure Reference.Within (P : Storage → Prop) (r : Reference) : Prop where
  effects : ScriptEngine.Within P r.effects
  reads : ScriptEngine.Within P r.reads

theorem Binding.within_writes {b : Binding} (h : Within P b.reads) (source : Source) :
    Within P (b.writes source) := by
  simp only [Binding.reads, within_cons, within_nil, and_true] at h
  unfold Binding.writes
  split
  · exact List.forall_mem_singleton.mpr h
  · exact within_nil

theorem Reference.Within.writes {r : Reference} (h : r.Within P) (source : Source) :
    ScriptEngine.Within P (r.writes source) := by
  cases r with
  | name a => exact Binding.within_writes h.reads source
  | member object key => exact within_nil

theorem Reference.Within.mono {r : Reference} (h : r.Within P)
    (hP : ∀ storage, P storage → P' storage) :
    r.Within P' :=
  ⟨h.effects.mono hP, h.reads.mono hP⟩

theorem within_storeSlot {ρ : Rep} {index : Nat} {value : Code ρ} :
    Within P (Code.storeSlot ρ index value).effects ↔
      Within P value.effects ∧ P (Storage.slot ρ index) := by
  by_cases hvalue : ∃ σ operand, value = .unary (.convert σ ρ) operand
  · obtain ⟨σ, operand, rfl⟩ := hvalue
    simp [Code.effects, Effect.Within]
  · rw [Code.effects_storeSlot fun σ operand heq => hvalue ⟨σ, operand, heq⟩]
    simp [Effect.Within]

end Within

/-- No effect is on one of the hidden slots. -/
abbrev Shows (hidden : Nat → Prop) (effects : List Effect) : Prop :=
  Within (Storage.Shown hidden) effects

/-- No part of a reference is one of the hidden slots. -/
abbrev Reference.Shown (hidden : Nat → Prop) (r : Reference) : Prop :=
  r.Within (Storage.Shown hidden)

/-! ### States -/

/-- Two states are the same apart from the hidden slots, which hold in the first one what is
said. -/
structure RunState.Hides (hidden : Nat → Prop) (held : Nat → Option Value)
    (s t : RunState) : Prop where
  frame : ∃ values, t.frame = { s.frame with values }
  machine : t.machine = s.machine
  shown : ∀ i, ¬ hidden i → s.frame.values[i]? = t.frame.values[i]?
  held : ∀ i, hidden i → s.frame.values[i]? = held i

namespace RunState

variable {hidden : Nat → Prop} {held : Nat → Option Value} {α β : Type}

/-- A computation that does not depend on the hidden slots and does not change them. -/
def Ignores (hidden : Nat → Prop) (held : Nat → Option Value) (x : Act α) : Prop :=
  Exec.Same (Hides hidden held) x x

theorem Ignores.bind {x : Act α} {f : α → Act β} (h : Ignores hidden held x)
    (hf : ∀ a, x.Yields a → Ignores hidden held (f a)) : Ignores hidden held (x >>= f) := by
  intro s t hst
  have hx := h hst
  change (Exec.andThen x f s).Agree _ _ (Exec.andThen x f t)
  unfold Exec.andThen
  cases hxs : x s with
  | ok a s' =>
    cases hxt : x t with
    | ok b t' =>
      rw [hxs, hxt] at hx
      obtain ⟨rfl, hst'⟩ : a = b ∧ Hides hidden held s' t' := by cases hx with | ok h => exact h
      exact hf a ⟨s, s', hxs⟩ hst'
    | error e t' => rw [hxs, hxt] at hx; cases hx
    | exhausted => rw [hxs, hxt] at hx; cases hx
  | error e s' =>
    cases hxt : x t with
    | ok b t' => rw [hxs, hxt] at hx; cases hx
    | error e' t' =>
      rw [hxs, hxt] at hx
      cases hx with
      | error h => exact .error h
    | exhausted => rw [hxs, hxt] at hx; cases hx
  | exhausted =>
    cases hxt : x t with
    | ok b t' => rw [hxs, hxt] at hx; cases hx
    | error e t' => rw [hxs, hxt] at hx; cases hx
    | exhausted => exact .exhausted

theorem ignores_pure (a : α) : Ignores hidden held (pure a : Act α) :=
  Exec.Same.pure a

theorem ignores_raise (kind : ErrorKind) (message : String) :
    Ignores hidden held (Exec.raise kind message : Act α) :=
  Exec.Same.raise kind message

theorem ignores_lift (x : Run α) : Ignores hidden held (Act.lift x) := by
  rintro ⟨f, m⟩ ⟨g, n⟩ h
  obtain rfl : n = m := h.machine
  unfold Act.lift
  dsimp only
  cases x n with
  | ok a m => exact .ok ⟨rfl, h.frame, rfl, h.shown, h.held⟩
  | error e m => exact .error ⟨h.frame, rfl, h.shown, h.held⟩
  | exhausted => exact .exhausted

/-- Whatever of a frame is no slot is the same. -/
theorem ignores_onFrame {f : Frame → α} (hf : ∀ frame values, f { frame with values } = f frame) :
    Ignores hidden held (Act.onFrame f) := by
  rintro ⟨f, m⟩ ⟨g, n⟩ h
  obtain ⟨values, rfl⟩ := h.frame
  exact .ok ⟨(hf f values).symm, h⟩

theorem ignores_onHeap (f : Heap → α) : Ignores hidden held (Act.onHeap f) := by
  rintro ⟨f, m⟩ ⟨g, n⟩ h
  obtain rfl : n = m := h.machine
  exact .ok ⟨rfl, h⟩

theorem ignores_slot {ρ : Rep} {index : Nat} (h : (Storage.slot ρ index).Shown hidden) :
    Ignores hidden held (Act.onFrame (·.slot ρ index)) := by
  cases ρ with
  | boxed =>
    intro s t hst
    have heq : s.frame.slot .boxed index = t.frame.slot .boxed index := by
      simp only [Frame.slot, hst.shown index h]
    exact .ok ⟨heq, hst⟩
  | _ => exact ignores_onFrame fun _ _ => rfl

theorem ignores_setSlot {ρ : Rep} {index : Nat} (h : (Storage.slot ρ index).Shown hidden)
    (x : ρ.Carrier) :
    Ignores hidden held (Act.setSlot ρ index x) := by
  rintro ⟨f, m⟩ ⟨g, n⟩ hst
  obtain ⟨values, rfl⟩ := hst.frame
  refine .ok ⟨rfl, ?_⟩
  cases ρ with
  | boxed =>
    refine ⟨⟨_, rfl⟩, hst.machine, fun i hi => ?_, fun i hi => ?_⟩
    · have hvalues := hst.shown i hi
      have hbound : f.values.size ≤ i ↔ values.size ≤ i := by
        rw [← Array.getElem?_eq_none_iff, ← Array.getElem?_eq_none_iff, hvalues]
      by_cases heq : index = i
      · subst heq
        simp only [Frame.setSlot, Array.getElem?_setIfInBounds, if_true]
        simp only [← Nat.not_le, hbound]
      · simpa [Frame.setSlot, Array.getElem?_setIfInBounds, heq] using hvalues
    · have heq : index ≠ i := fun heq => h (heq ▸ hi)
      simpa [Frame.setSlot, Array.getElem?_setIfInBounds, heq] using hst.held i hi
  | _ => exact ⟨⟨values, rfl⟩, hst.machine, hst.shown, hst.held⟩

theorem ignores_complete (v : Value) :
    Ignores hidden held (Act.changeFrame fun f => { f with completion := v }) := by
  rintro ⟨f, m⟩ ⟨g, n⟩ h
  obtain ⟨values, rfl⟩ := h.frame
  exact .ok ⟨rfl, ⟨values, rfl⟩, h.machine, h.shown, h.held⟩

/-! ### Variables and places -/

theorem ignores_record (number : Nat) : Ignores hidden held (Act.record number) := by
  refine Ignores.bind (ignores_onFrame fun _ _ => rfl) fun r _ => ?_
  cases r.join with
  | some r => exact ignores_pure r
  | none => exact ignores_raise _ _

theorem ignores_readField (address : FieldAddress) :
    Ignores hidden held (Act.readField address) := by
  refine (ignores_record address.record).bind fun r _ => ?_
  rintro ⟨f, m⟩ ⟨g, n⟩ hst
  obtain rfl : n = m := hst.machine
  exact .ok ⟨rfl, hst⟩

theorem ignores_writeField (address : FieldAddress) (v : Value) :
    Ignores hidden held (Act.writeField address v) := by
  refine (ignores_record address.record).bind fun r _ => ?_
  rintro ⟨f, m⟩ ⟨g, n⟩ hst
  obtain rfl : n = m := hst.machine
  exact .ok ⟨rfl, hst.frame, rfl, hst.shown, hst.held⟩

theorem ignores_argumentsObject (via : Option FieldAddress) :
    Ignores hidden held (Act.argumentsObject via) := by
  cases via with
  | some address => exact ignores_readField address
  | none => exact ignores_onFrame fun _ _ => rfl

theorem ignores_storageRead {storage : Storage} (h : storage.Shown hidden) (lenient : Bool) :
    Ignores hidden held (storage.read lenient) := by
  cases storage with
  | global name =>
    refine (ignores_onHeap _).bind fun b _ => ?_
    split
    · exact ignores_onHeap _
    · split
      · exact ignores_pure _
      · exact ignores_raise _ _
  | parameter index via => exact (ignores_argumentsObject via).bind fun _ _ => ignores_onHeap _
  | slot ρ index =>
    have hslot : Ignores hidden held (Act.onFrame (·.slot ρ index) >>= fun x => pure (ρ.box x)) :=
      (ignores_slot h).bind fun _ _ => ignores_pure _
    exact hslot
  | field address => exact ignores_readField address

theorem ignores_storageWrite {storage : Storage} (h : storage.Shown hidden) (v : Value) :
    Ignores hidden held (storage.write v) := by
  cases storage with
  | global name =>
    refine Ignores.bind (ignores_onFrame fun _ _ => rfl) fun _ _ =>
      (ignores_onHeap _).bind fun _ _ => ?_
    split
    · exact ignores_raise _ _
    · exact ignores_lift _
  | parameter index via => exact (ignores_argumentsObject via).bind fun _ _ => ignores_lift _
  | slot ρ index => exact ignores_setSlot h _
  | field address => exact ignores_writeField address v

theorem ignores_bindingWrite {b : Binding} {source : Source} (h : Shows hidden (b.writes source))
    (v : Value) : Ignores hidden held (b.write v) := by
  unfold Binding.write
  unfold Binding.writes at h
  split
  · next hconstant =>
    rw [hconstant] at h
    exact ignores_storageWrite (h _ List.mem_cons_self) v
  · refine Ignores.bind (ignores_onFrame fun _ _ => rfl) fun _ _ => ?_
    split
    · exact ignores_raise _ _
    · exact ignores_pure _

theorem ignores_bindingDelete (b : Binding) : Ignores hidden held b.delete := by
  unfold Binding.delete
  split
  · refine (ignores_onHeap _).bind fun _ _ => ?_
    split
    · exact ignores_lift _
    · exact ignores_pure _
  · exact ignores_pure _

theorem ignores_firstResult {step : β → Act (Option α)} : ∀ l : List β,
    (∀ b ∈ l, Ignores hidden held (step b)) → Ignores hidden held (Exec.firstResult step l) :=
  Exec.Same.firstResult

theorem ignores_access {a : Access} (h : Shows hidden a.effects) :
    Ignores hidden held a.resolve := by
  refine Ignores.bind (ignores_firstResult a.scopes fun b hb => ?_) fun found _ => ?_
  · refine (ignores_storageRead (h (.read b.storage) (List.mem_map_of_mem hb)) false).bind
      fun v _ => ?_
    cases v with
    | object r => exact (ignores_onHeap _).bind fun _ _ => ignores_pure _
    | _ => exact ignores_pure _
  · cases found with
    | some base => exact ignores_pure _
    | none => exact ignores_pure _

theorem ignores_placeRead {r : Reference} (h : Shows hidden r.reads) {p : Place} (hp : r.CanBe p)
    (lenient : Bool) : Ignores hidden held (p.read lenient) := by
  cases p with
  | property base key => exact ignores_lift _
  | binding name b =>
    cases r with
    | member object key => exact absurd hp id
    | name a =>
      cases hp
      exact ignores_storageRead (h _ List.mem_cons_self) lenient

theorem ignores_placeWrite {r : Reference} {source : Source} (h : Shows hidden (r.writes source))
    {p : Place} (hp : r.CanBe p) (v : Value) : Ignores hidden held (p.write v) := by
  cases p with
  | property base key =>
    exact Ignores.bind (ignores_onFrame fun _ _ => rfl) fun _ _ => ignores_lift _
  | binding name b =>
    cases r with
    | member object key => exact absurd hp id
    | name a =>
      cases hp
      exact ignores_bindingWrite h v

theorem ignores_placeDelete (p : Place) : Ignores hidden held p.delete := by
  cases p with
  | property base key =>
    exact Ignores.bind (ignores_onFrame fun _ _ => rfl) fun _ _ => ignores_lift _
  | binding name b => exact ignores_bindingDelete b

/-! ### Code -/

section Code

variable {host : Host}

mutual

/-- Code that uses no hidden slot does not depend on them and does not change them. -/
theorem ignores_code {ρ : Rep} :
    ∀ c : Code ρ, Shows hidden c.effects → Ignores hidden held (c.eval host)
  | .constant x, _ => ignores_pure x
  | .regularExpression .., _ => ignores_lift _
  | .this, _ => ignores_onFrame fun _ _ => rfl
  | .callee, _ => ignores_onFrame fun _ _ => rfl
  | .array elements, h => (ignores_list elements h).bind fun _ _ => ignores_lift _
  | .object properties, h => by
    refine (ignores_lift _).bind fun v _ => ?_
    cases v with
    | object r => exact (ignores_properties r properties h).bind fun _ _ => ignores_pure _
    | _ => exact ignores_pure _
  | .function f, _ => Ignores.bind (ignores_onFrame fun _ _ => rfl) fun _ _ => ignores_lift _
  | .slot ρ index, h => ignores_slot (h _ List.mem_cons_self)
  | .storeSlot ρ index value, h => by
    obtain ⟨hvalue, hslot⟩ := within_storeSlot.mp h
    exact (ignores_code value hvalue).bind fun x _ => (ignores_setSlot hslot x).bind fun _ _ =>
      ignores_pure x
  | .stepSlot index step before, _ => by
    have hslot : (Storage.slot .double index).Shown hidden := trivial
    exact (ignores_slot hslot).bind fun _ _ => (ignores_setSlot hslot _).bind fun _ _ =>
      ignores_pure _
  | .load place lenient, h => by
    obtain ⟨hplace, hread⟩ := within_append.mp h
    exact (ignores_reference place hplace).bind fun p hp =>
      ignores_placeRead hread (Reference.canBe_of_yields hp) lenient
  | .store place value, h => by
    obtain ⟨hplace, h⟩ := within_append.mp h
    obtain ⟨hvalue, hwrite⟩ := within_append.mp h
    exact (ignores_reference place hplace).bind fun p hp =>
      (ignores_code value hvalue).bind fun v _ =>
      (ignores_placeWrite hwrite (Reference.canBe_of_yields hp) v).bind fun _ _ => ignores_pure v
  | .combine place op value, h => by
    obtain ⟨hplace, h⟩ := within_append.mp h
    obtain ⟨hread, h⟩ := within_append.mp h
    obtain ⟨hvalue, hwrite⟩ := within_append.mp h
    refine (ignores_reference place hplace).bind fun p hp => ?_
    have hp := Reference.canBe_of_yields hp
    exact (ignores_placeRead hread hp false).bind fun _ _ =>
      (ignores_code value hvalue).bind fun _ _ =>
      (ignores_lift _).bind fun new _ => (ignores_placeWrite hwrite hp new).bind fun _ _ =>
        ignores_pure new
  | .step place step before, h => by
    obtain ⟨hplace, h⟩ := within_append.mp h
    obtain ⟨hread, hwrite⟩ := within_append.mp h
    refine (ignores_reference place hplace).bind fun p hp => ?_
    have hp := Reference.canBe_of_yields hp
    exact (ignores_placeRead hread hp false).bind fun _ _ => (ignores_lift _).bind fun _ _ =>
      (ignores_placeWrite hwrite hp _).bind fun _ _ => ignores_pure _
  | .delete place, h => (ignores_reference place h).bind fun p _ => ignores_placeDelete p
  | .unary form operand, h => (ignores_code operand h).bind fun _ _ => ignores_lift _
  | .binary form left right, h => by
    obtain ⟨hleft, hright⟩ := within_append.mp h
    exact (ignores_code left hleft).bind fun _ _ => (ignores_code right hright).bind fun _ _ =>
      ignores_lift _
  | .logical ρ op left right, h => by
    obtain ⟨hleft, hright⟩ := within_append.mp h
    refine (ignores_code left hleft).bind fun x _ => ?_
    split
    · exact ignores_code right hright
    · exact ignores_pure x
  | .conditional test consequent alternate, h => by
    obtain ⟨htest, h⟩ := within_append.mp h
    obtain ⟨hconsequent, halternate⟩ := within_append.mp h
    refine (ignores_code test htest).bind fun b _ => ?_
    split
    · exact ignores_code consequent hconsequent
    · exact ignores_code alternate halternate
  | .sequence first rest, h => by
    obtain ⟨hfirst, hrest⟩ := within_append.mp h
    exact (ignores_code first hfirst).bind fun _ _ => ignores_code rest hrest
  | .callPlace function arguments, h => by
    obtain ⟨hplace, h⟩ := within_append.mp h
    obtain ⟨hread, harguments⟩ := within_append.mp h
    exact (ignores_reference function hplace).bind fun p hp =>
      (ignores_placeRead hread (Reference.canBe_of_yields hp) false).bind fun _ _ =>
        (ignores_list arguments harguments).bind fun _ _ => ignores_lift _
  | .call function arguments, h => by
    obtain ⟨hfunction, harguments⟩ := within_append.mp h
    exact (ignores_code function hfunction).bind fun _ _ =>
      (ignores_list arguments harguments).bind fun _ _ => ignores_lift _
  | .construct function arguments, h => by
    obtain ⟨hfunction, harguments⟩ := within_append.mp h
    exact (ignores_code function hfunction).bind fun _ _ =>
      (ignores_list arguments harguments).bind fun _ _ => ignores_lift _

theorem ignores_list : ∀ cs : List (Code .boxed), Shows hidden (listEffects cs) →
    Ignores hidden held (evalList host cs)
  | [], _ => ignores_pure _
  | c :: rest, h => by
    obtain ⟨hc, hrest⟩ := within_append.mp h
    exact (ignores_code c hc).bind fun _ _ => (ignores_list rest hrest).bind fun _ _ =>
      ignores_pure _

theorem ignores_properties (r : Ref) : ∀ ps : List PropertyCode, Shows hidden (propertyEffects ps) →
    Ignores hidden held (putProperties host r ps)
  | [], _ => ignores_pure _
  | .mk key value :: rest, h => by
    obtain ⟨hvalue, hrest⟩ := within_append.mp h
    exact (ignores_code value hvalue).bind fun _ _ => (ignores_lift _).bind fun _ _ =>
      ignores_properties r rest hrest

theorem ignores_reference : ∀ r : Reference, Shows hidden r.effects →
    Ignores hidden held (r.resolve host)
  | .name a, h => ignores_access h
  | .member object key, h => by
    obtain ⟨hobject, hkey⟩ := within_append.mp h
    exact (ignores_code object hobject).bind fun _ _ => (ignores_code key hkey).bind fun _ _ =>
      ignores_lift _

end

/-- Writing to a place that is no hidden slot. -/
theorem ignores_assign {r : Reference} (h : r.Shown hidden) (v : Value) :
    Ignores hidden held (r.resolve host >>= fun p => p.write v) :=
  (ignores_reference r h.effects).bind fun _ hp =>
    ignores_placeWrite (h.writes .any) (Reference.canBe_of_yields hp) v

end Code

end RunState

end ScriptEngine
