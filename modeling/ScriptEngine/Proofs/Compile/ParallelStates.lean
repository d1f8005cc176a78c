import ScriptEngine.Proofs.Compile.Frame
import ScriptEngine.Proofs.Compile.Parallel
import ScriptEngine.Proofs.Compile.Stores
import ScriptEngine.Proofs.Run.Recoding

/-!
# Activations of a body with and without types

A body was compiled twice, with types and without any.  Of two activations, one of each code, the
variables have the same values as long as those that are kept in typed slots were written before.  A
name then stands for the same place in both, and reads and writes of the place do the same.

## Main definitions

* `Analysis.Counterparts` : the two codes of one function.
* `RunState.Parallel` : activations of the two codes of one body.
* `Exec.SameTo` : the same result, and states that are related more closely than before.
* `Access.Found` : the places that a name stands for in the two codes.

## Main statements

* `Access.Parallel.relates_resolve` : a name is found at corresponding places.
* `Access.Parallel.readAlike`, `Access.Parallel.writtenAlike` : reads and writes of these places do
  the same.
-/

namespace ScriptEngine

/-! ### Related more closely -/

namespace Exec

variable {σ τ α β : Type} {S S' S'' : σ → τ → Prop} {x : Exec σ α} {y : Exec τ α}

/-- Computations that yield the same result and leave states related as said, or related as before
if they fail. -/
def SameTo (S S' : σ → τ → Prop) (x : Exec σ α) (y : Exec τ α) : Prop :=
  Relates S S (sameResult S') x y

theorem SameTo.bind {f : α → Exec σ β} {g : α → Exec τ β} (h : SameTo S S' x y)
    (hf : ∀ a, Relates S' S (sameResult S'') (f a) (g a)) : SameTo S S'' (x >>= f) (y >>= g) := by
  refine Relates.bind h fun a b s t => ?_
  rintro ⟨rfl, hst⟩
  exact hf a hst

theorem SameTo.same (h : SameTo S S' x y) (hS : ∀ {s t}, S' s t → S s t) : Same S x y :=
  Relates.mono h id id fun ⟨hab, hst⟩ => ⟨hab, hS hst⟩

/-- The results of a computation are results that it yields. -/
theorem Relates.noting {γ δ : Type} {E : σ → τ → Prop} {Q : γ → δ → σ → τ → Prop} {x : Exec σ γ}
    {y : Exec τ δ} (h : Relates S E Q x y) :
    Relates S E (fun a b s t => x.Yields a ∧ Q a b s t) x y := by
  intro s t hst
  have hxy := h hst
  have hyields : ∀ a s', x s = .ok a s' → x.Yields a := fun a s' heq => ⟨s, s', heq⟩
  generalize x s = p at hxy hyields ⊢
  generalize y t = q at hxy ⊢
  cases hxy with
  | ok hQ => exact .ok ⟨hyields _ _ rfl, hQ⟩
  | error hE => exact .error hE
  | exhausted => exact .exhausted

end Exec

/-! ### Functions -/

/-- Two codes are those of one function, compiled with types that can be relied upon and without
types. -/
def Analysis.Counterparts (a : Analysis) (c d : FunctionCode) : Prop :=
  ∃ f : Func, AllSound a (f.typeSites a) ∧ Compile.func a f = .ok c ∧
    Compile.func a.untyped f = .ok d

/-- What is known about the code of a function is read off the function and the tables. -/
theorem Compile.info_of_func {a : Analysis} {f : Func} {code : FunctionCode}
    (h : func a f = .ok code) :
    code.info.id = f.id ∧ code.info.name = f.name ∧
      code.info.paramCount = f.params.length ∧ code.info.strict = (a.body f.id).strict := by
  obtain ⟨span, id, name, params, strict, isExpression, bodySpan, body⟩ := f
  rw [func] at h
  obtain ⟨r, -, hcode⟩ := except_bind_eq_ok h
  cases hcode
  exact ⟨rfl, rfl, rfl, rfl⟩

theorem Analysis.Counterparts.resembles {a : Analysis} {c d : FunctionCode}
    (h : a.Counterparts c d) :
    c.Resembles d := by
  obtain ⟨f, -, hc, hd⟩ := h
  obtain ⟨-, hname, hcount, hstrict⟩ := Compile.info_of_func hc
  obtain ⟨-, hname', hcount', hstrict'⟩ := Compile.info_of_func hd
  exact ⟨hname.trans hname'.symm, hcount.trans hcount'.symm, hstrict.trans hstrict'.symm⟩

/-! ### Slots -/

section

variable {f : Frame} {ρ σ : Rep} {i j : Nat}

theorem Frame.slot_setSlot_self (h : i < f.count ρ) (x : ρ.Carrier) :
    (f.setSlot ρ i x).slot ρ i = x := by
  cases ρ <;> exact (congrArg (Option.getD · _) (Array.getElem?_setIfInBounds_self_of_lt h)).trans
    rfl

theorem Frame.slot_setSlot_of_ne (h : σ = ρ → j ≠ i) (x : ρ.Carrier) :
    (f.setSlot ρ i x).slot σ j = f.slot σ j := by
  by_cases heq : σ = ρ
  · subst heq
    cases σ <;> exact congrArg (Option.getD · _) (Array.getElem?_setIfInBounds_ne (h rfl).symm)
  · cases ρ <;> cases σ <;> first | exact absurd rfl heq | rfl

theorem Frame.count_setSlot (x : ρ.Carrier) : (f.setSlot ρ i x).count σ = f.count σ := by
  cases ρ <;> cases σ <;> simp [Frame.setSlot, Frame.count]

theorem Frame.outline_setSlot (x : ρ.Carrier) : (f.setSlot ρ i x).outline = f.outline := by
  cases ρ <;> rfl

theorem Frame.slot_complete (v : Value) : { f with completion := v }.slot ρ i = f.slot ρ i := by
  cases ρ <;> rfl

theorem Frame.count_complete (v : Value) : { f with completion := v }.count ρ = f.count ρ := by
  cases ρ <;> rfl

end

/-! ### Activations -/

/-- Activations of a body that was compiled with types and without any.  The variables have the same
values, if those that are kept in typed slots were written. -/
structure RunState.Parallel (ctx : BodyContext) (given given' : BodyState) (W : Set VariableId)
    (s t : RunState) : Prop where
  machine : s.machine.Recoded ctx.analysis.Counterparts t.machine
  outline : s.frame.outline = t.frame.outline
  room : ∀ ρ, given.count ρ ≤ s.frame.count ρ
  room' : ∀ ρ, given'.count ρ ≤ t.frame.count ρ
  slots : ∀ v x y, given.slot? v = some x → given'.slot? v = some y → (x.rep ≠ .boxed → v ∈ W) →
    x.rep.box (s.frame.slot x.rep x.index) = y.rep.box (t.frame.slot y.rep y.index)

namespace RunState.Parallel

variable {ctx : BodyContext} {given given' : BodyState} {W W' : Set VariableId} {s t : RunState}

/-- More variables were written if none of them is kept in a typed slot. -/
theorem mono (h : RunState.Parallel ctx given given' W s t)
    (hW : ∀ v ∈ W', ∀ x, given.slot? v = some x → x.rep ≠ .boxed → v ∈ W) :
    RunState.Parallel ctx given given' W' s t :=
  { h with slots := fun v x y hx hy hv => h.slots v x y hx hy fun hρ => hW v (hv hρ) x hx hρ }

theorem of_subset (h : RunState.Parallel ctx given given' W s t) (hW : W' ⊆ W) :
    RunState.Parallel ctx given given' W' s t :=
  h.mono fun _ hv _ _ _ => hW hv

theorem complete (h : RunState.Parallel ctx given given' W s t) (v : Value) :
    RunState.Parallel ctx given given' W ⟨{ s.frame with completion := v }, s.machine⟩
      ⟨{ t.frame with completion := v }, t.machine⟩ where
  machine := h.machine
  outline := congrArg (fun f : Frame => { f with completion := v }) h.outline
  room ρ := by rw [Frame.count_complete]; exact h.room ρ
  room' ρ := by rw [Frame.count_complete]; exact h.room' ρ
  slots w x y hx hy hw := by
    rw [Frame.slot_complete, Frame.slot_complete]
    exact h.slots w x y hx hy hw

variable (hp : ctx.Places given given')
include hp

/-- A variable is written in both. -/
theorem setSlot (h : RunState.Parallel ctx given given' W s t) {v : VariableId} {x y : Slot}
    (hx : given.slot? v = some x) (hy : given'.slot? v = some y) {a : x.rep.Carrier}
    {b : y.rep.Carrier} (hab : x.rep.box a = y.rep.box b) :
    RunState.Parallel ctx given given' (insert v W) ⟨s.frame.setSlot x.rep x.index a, s.machine⟩
      ⟨t.frame.setSlot y.rep y.index b, t.machine⟩ where
  machine := h.machine
  outline := by rw [Frame.outline_setSlot, Frame.outline_setSlot, h.outline]
  room ρ := by rw [Frame.count_setSlot]; exact h.room ρ
  room' ρ := by rw [Frame.count_setSlot]; exact h.room' ρ
  slots w x' y' hx' hy' hw := by
    by_cases heq : w = v
    · subst heq
      obtain rfl := Option.some.inj (hx.symm.trans hx')
      obtain rfl := Option.some.inj (hy.symm.trans hy')
      have hroom : x.index < s.frame.count x.rep := (hp.typed.counted w x hx).trans_le (h.room _)
      have hroom' : y.index < t.frame.count y.rep :=
        (hp.untyped.counted w y hy).trans_le (h.room' _)
      rw [Frame.slot_setSlot_self hroom, Frame.slot_setSlot_self hroom', hab]
    · -- Another variable has other slots.
      have hapart {z z' : Slot} (hrep : z'.rep = z.rep) (hindex : z'.index = z.index) : z' = z := by
        cases z; cases z'; cases hrep; cases hindex; rfl
      have hne (hrep : x'.rep = x.rep) : x'.index ≠ x.index := fun hindex =>
        heq (hp.typed.distinct w v x (hapart hrep hindex ▸ hx') hx)
      have hne' (hrep : y'.rep = y.rep) : y'.index ≠ y.index := fun hindex =>
        heq (hp.untyped.distinct w v y (hapart hrep hindex ▸ hy') hy)
      rw [Frame.slot_setSlot_of_ne hne, Frame.slot_setSlot_of_ne hne']
      exact h.slots w x' y' hx' hy' fun hρ => (hw hρ).resolve_left heq

end RunState.Parallel

section

variable {ctx : BodyContext} {given given' : BodyState} {W W' : Set VariableId} {α : Type}

theorem RunState.recoding_parallel :
    RunState.Recoding ctx.analysis.Counterparts (RunState.Parallel ctx given given' W) where
  machine h := h.machine
  outline h := h.outline
  withMachine h hmn := { h with machine := hmn }

/-! ### Variables -/

namespace Storage.Parallel

variable {x y : Storage} (h : x.Parallel given given' y)
include h

/-- A variable is read in both, if it was written. -/
theorem same_read (hp : ctx.Places given given') (hread : x.IsTyped → x ∈ given.slotsOf W)
    (lenient : Bool) :
    Exec.Same (RunState.Parallel ctx given given' W) (x.read lenient) (y.read lenient) := by
  cases h with
  | global | parameter | field => exact RunState.recoding_parallel.same_read lenient nofun
  | @slot v x y hx hy =>
    refine fun s t hst => .ok ⟨hst.slots v x y hx hy fun hρ => ?_, hst⟩
    obtain ⟨w, hw, ⟨σ, k⟩, hslot, heq⟩ := hread hρ
    cases heq
    exact hp.typed.distinct w v x hslot hx ▸ hw

/-- A variable is written in both, if the slot can hold the value. -/
theorem same_write (hp : ctx.Places given given') {v : Value}
    (hv : ∀ ρ k, x = .slot ρ k → ρ.Holds v)
    (hW : ∀ w ∈ W', ∀ z, given.slot? w = some z → z.rep ≠ .boxed →
      w ∈ W ∨ x = .slot z.rep z.index) :
    Exec.SameTo (RunState.Parallel ctx given given' W)
      (RunState.Parallel ctx given given' W') (x.write v) (y.write v) := by
  have hkept (hx : ∀ ρ k, x ≠ .slot ρ k) (hxy : y = x) :
      Exec.SameTo (RunState.Parallel ctx given given' W)
        (RunState.Parallel ctx given given' W') (x.write v)
        (y.write v) := by
    subst hxy
    refine (RunState.recoding_parallel.same_write Analysis.Counterparts.resembles v hx).mono id id
      fun ⟨hab, hst⟩ => ⟨hab, hst.mono fun w hw z hz hρ => ?_⟩
    exact (hW w hw z hz hρ).resolve_right (hx _ _)
  cases h with
  | global | parameter | field => exact hkept nofun rfl
  | @slot u x y hx hy =>
    refine fun s t hst => .ok ⟨rfl, (hst.setSlot hp hx hy ?_).mono fun w hw z hz hρ => ?_⟩
    · have hbox : y.rep.box (y.rep.ofPrimitive v) = v := by
        rw [hp.boxed hy]
        rfl
      rw [hbox]
      exact hv _ _ rfl
    · rcases hW w hw z hz hρ with hw | heq
      · exact .inr hw
      · obtain ⟨σ, k⟩ := z
        cases heq
        exact .inl (hp.typed.distinct w u x hz hx)

end Storage.Parallel

/-! ### Places -/

/-- The places that a name stands for in the two codes: its variable, or the same property of an
object. -/
inductive Access.Found (a b : Access) : Place → Place → Prop where
  | binding : Found a b (.binding a.name a.binding) (.binding b.name b.binding)
  | property (base : Value) (h : a.scopes ≠ []) :
    Found a b (.property base a.name) (.property base a.name)

/-- The same is found at two places, which are called in the same way. -/
structure Place.ReadAlike (S : RunState → RunState → Prop) (p q : Place) : Prop where
  name : p.name = q.name
  receiver : p.receiver = q.receiver
  read : ∀ lenient, Exec.Same S (p.read lenient) (q.read lenient)

/-- Two places are written together with values of some kind. -/
def Place.WrittenAlike (S S' : RunState → RunState → Prop) (V : Value → Prop)
    (p q : Place) : Prop :=
  ∀ v, V v → Exec.SameTo S S' (p.write v) (q.write v)

theorem Exec.Same.firstResult₂ {σ τ β γ : Type} {S : σ → τ → Prop} {step : β → Exec σ (Option α)}
    {step' : γ → Exec τ (Option α)} {l : List β} {l' : List γ}
    (h : List.Forall₂ (fun b c => Exec.Same S (step b) (step' c)) l l') :
    Exec.Same S (Exec.firstResult step l) (Exec.firstResult step' l') := by
  induction h with
  | nil => exact .pure none
  | cons hstep _ ih =>
    rw [firstResult_cons, firstResult_cons]
    refine hstep.bind fun a => ?_
    cases a with
    | none => exact ih
    | some a => exact .pure (some a)

namespace Access.Parallel

variable {a b : Access} (h : a.Parallel given given' b) (hp : ctx.Places given given')
include h hp

/-- A name is looked up in the same objects. -/
theorem relates_resolve (hscopes : ∀ scope ∈ a.scopes, ¬ scope.storage.IsTyped) :
    Exec.Relates (RunState.Parallel ctx given given' W) (RunState.Parallel ctx given given' W)
      (fun p q s t => a.Found b p q ∧ RunState.Parallel ctx given given' W s t) a.resolve
        b.resolve := by
  obtain ⟨name, scopes, binding⟩ := a
  obtain ⟨name', scopes', binding'⟩ := b
  obtain rfl : name = name' := h.name
  have hprobe {c d : Binding} (hcd : c.Parallel given given' d) (hc : ¬ c.storage.IsTyped) :
      Exec.Same (RunState.Parallel ctx given given' W) (probe name c) (probe name d) := by
    refine (hcd.storage.same_read hp (fun ht => absurd ht hc) false).bind fun v => ?_
    cases v with
    | object r =>
      refine (RunState.recoding_parallel.same_onHeap fun s => s.hasProperty r name).bind
        fun found => ?_
      exact .pure _
    | _ => exact .pure _
  have hforall {l l' : List Binding} (hl : List.Forall₂ (Binding.Parallel given given') l l')
      (hscopes : ∀ scope ∈ l, ¬ scope.storage.IsTyped) : List.Forall₂ (fun c d =>
        Exec.Same (RunState.Parallel ctx given given' W) (probe name c) (probe name d)) l l' := by
    induction hl with
    | nil => exact .nil
    | cons hcd _ ih =>
      obtain ⟨hc, hrest⟩ := List.forall_mem_cons.mp hscopes
      exact .cons (hprobe hcd hc) (ih hrest)
  have hfirst := Exec.Same.firstResult₂ (hforall h.scopes hscopes)
  unfold resolve
  cases scopes with
  | nil =>
    cases h.scopes
    exact Exec.Relates.pure fun hst => ⟨.binding, hst⟩
  | cons scope rest =>
    refine hfirst.bindTo id fun found => ?_
    cases found with
    | none => exact Exec.Relates.pure fun hst => ⟨.binding, hst⟩
    | some base => exact Exec.Relates.pure fun hst => ⟨.property base nofun, hst⟩

variable {p q : Place} (hpq : a.Found b p q)
include hpq

theorem readAlike (hread : a.binding.storage.IsTyped → a.binding.storage ∈ given.slotsOf W) :
    Place.ReadAlike (RunState.Parallel ctx given given' W) p q := by
  cases hpq with
  | binding => exact ⟨h.name, rfl, fun lenient => h.binding.storage.same_read hp hread lenient⟩
  | property base _ =>
    exact ⟨rfl, rfl, fun _ => RunState.recoding_parallel.same_lift Analysis.Counterparts.resembles
      (MachineRelation.same_getProperty base a.name)⟩

theorem writtenAlike {V : Value → Prop}
    (hV : ∀ v, V v → ∀ ρ k, a.binding.storage = .slot ρ k → ρ.Holds v)
    (hW : ∀ w ∈ W', ∀ z, given.slot? w = some z → z.rep ≠ .boxed →
      w ∈ W ∨ a = ⟨a.name, [], ⟨.slot z.rep z.index, none⟩⟩) :
    Place.WrittenAlike (RunState.Parallel ctx given given' W)
      (RunState.Parallel ctx given given' W') V p q := by
  intro v hv
  have hkept (hne : a.scopes ≠ [] ∨ a.binding.constant ≠ none) {s t : RunState}
      (hst : RunState.Parallel ctx given given' W s t) :
        RunState.Parallel ctx given given' W' s t := by
    refine hst.mono fun w hw z hz hρ => (hW w hw z hz hρ).resolve_right fun heq => ?_
    rw [heq] at hne
    exact hne.elim (· rfl) (· rfl)
  cases hpq with
  | property base hscopes =>
    exact (RunState.recoding_parallel.same_writeProperty Analysis.Counterparts.resembles base a.name
      v).mono id id fun ⟨hab, hst⟩ => ⟨hab, hkept (.inl hscopes) hst⟩
  | binding =>
    change Exec.SameTo _ _ (a.binding.write v) (b.binding.write v)
    unfold Binding.write
    rw [← h.binding.constant]
    cases hconstant : a.binding.constant with
    | none =>
      refine h.binding.storage.same_write hp (hV v hv) fun w hw z hz hρ => ?_
      exact (hW w hw z hz hρ).imp_right fun heq => by rw [heq]
    | some name =>
      refine (RunState.recoding_parallel.same_onFrame fun _ => rfl).bindTo id fun strict => ?_
      refine Exec.Relates.mono (Exec.Same.ite (.raise _ _) (.pure _)) id id fun ⟨hab, hst⟩ =>
        ⟨hab, hkept ?_ hst⟩
      exact .inr (by rw [hconstant]; exact nofun)

omit hp in
theorem same_delete : Exec.Same (RunState.Parallel ctx given given' W) p.delete q.delete := by
  cases hpq with
  | property base _ =>
    exact RunState.recoding_parallel.same_deleteProperty Analysis.Counterparts.resembles base a.name
  | binding =>
    obtain ⟨name, scopes, ⟨storage, constant⟩⟩ := a
    obtain ⟨name', scopes', ⟨storage', constant'⟩⟩ := b
    obtain rfl : constant = constant' := h.binding.constant
    have hstorage : storage.Parallel given given' storage' := h.binding.storage
    cases hstorage with
    | parameter | field | slot => exact .pure false
    | global x =>
      cases constant with
      | some => exact .pure false
      | none =>
        refine (RunState.recoding_parallel.same_onHeap fun s => s.hasProperty _ x).bind
          fun found => ?_
        exact .ite (RunState.recoding_parallel.same_lift Analysis.Counterparts.resembles
          (MachineRelation.same_deleteProperty _ _ _)) (.pure _)

end Access.Parallel

/-! ### Names -/

namespace Compile

variable {i : Identifier} {a b : Access} {p q : Place}

/-- A variable that may be read is in no typed slot, or was written. -/
theorem Named.mem_slotsOf (h : Named ctx given i a) (hi : ctx.analysis.Reads W i)
    (ht : a.binding.storage.IsTyped) : a.binding.storage ∈ given.slotsOf W := by
  obtain ⟨v, hv, hconcrete⟩ := h.binding ht
  obtain ⟨k, hslot, hacc⟩ := h.slot v hv hconcrete
  rw [hacc]
  exact ⟨v, hi.written v hv hconcrete, _, hslot, rfl⟩

/-- A name is written with a value of its type, after which its variable was written. -/
theorem Named.writtenAlike {t : ValueType} (h : Named ctx given i a)
    (hab : a.Parallel given given' b) (hp : ctx.Places given given') (hi : ctx.analysis.Writes i t)
    (top : Bool) (hpq : a.Found b p q) :
    Place.WrittenAlike (RunState.Parallel ctx given given' W)
      (RunState.Parallel ctx given given' (ctx.analysis.written top W i)) (·.Fits t) p q := by
  refine hab.writtenAlike hp hpq (fun v hv ρ k hstorage => h.holds hi hstorage hv)
    fun w hw z hz hρ => ?_
  refine hw.imp_right fun ⟨_, hreference⟩ => ?_
  have hkind := hp.typed.kind w z hz
  obtain ⟨k, hslot, hacc⟩ := h.slot w hreference (by rwa [hkind] at hρ)
  obtain rfl := Option.some.inj (hz.symm.trans hslot)
  exact hacc

/-- A name that is kept in no typed slot takes any value. -/
theorem writtenAlike_of_not_isTyped (hab : a.Parallel given given' b) (hp : ctx.Places given given')
    (ha : ¬ a.binding.storage.IsTyped) (hpq : a.Found b p q) :
    Place.WrittenAlike (RunState.Parallel ctx given given' W) (RunState.Parallel ctx given given' W)
      (fun _ => True) p q :=
  hab.writtenAlike hp hpq (fun _ _ _ _ hstorage => Rep.holds_of_not_isTyped ha hstorage)
    fun _ hw _ _ _ => .inl hw

end Compile

end

end ScriptEngine
