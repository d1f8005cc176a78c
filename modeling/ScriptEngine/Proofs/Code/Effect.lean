import ScriptEngine.Proofs.Code.Trace
import ScriptEngine.Proofs.Run.Calling

/-!
# Effects of code

The effects of code say without running it which variables it may read and write, where the written
values come from, and which functions it may make.  Every event of a run is an instance of an
effect.  So what holds of code on two related machines follows from what holds of its effects.

## Main definitions

* `Source`, `Effect` : where a written value comes from, and what code may do.
* `Code.effects`, `StatementCode.effects` : the effects of code.
* `ActivationRelation` : what may relate two activations of the same code.
* `Traced.Follows` : a computation with events follows another one without.
* `ActivationRelation.Admits` : an effect keeps the relation.
* `ActivationRelation.IsDiagonal` : only equal activations are related.

## Main statements

* `Code.follows`, `StatementCode.follows` : code keeps the relation if its effects do.
-/

namespace ScriptEngine

/-! ### Effects -/

/-- Where a value that is written comes from: it is what code yields, a number, a string, or any
value. -/
inductive Source where
  | code (c : TypedCode)
  | number
  | string
  | any

/-- What code may do: read or write a variable, or make a function. -/
inductive Effect where
  | read (storage : Storage)
  | write (storage : Storage) (source : Source)
  | function (f : FunctionCode)

/-- The values that a source gives. -/
def Source.Gives (host : Host) : Source → Value → Prop
  | .code c, v => ∃ x, (c.code.eval host).Yields x ∧ v = c.rep.box x
  | .number, v => ∃ x, v = .number x
  | .string, v => ∃ s, v = .string s
  | .any, _ => True

/-- The effects of finding the place of a name. -/
def Access.effects (a : Access) : List Effect :=
  a.scopes.map fun b => .read b.storage

/-- The effects of reading a variable. -/
def Binding.reads (b : Binding) : List Effect :=
  [.read b.storage]

/-- The effects of writing a variable. -/
def Binding.writes (b : Binding) (source : Source) : List Effect :=
  match b.constant with
  | none => [.write b.storage source]
  | some _ => []

/-- The effects of reading a reference that was found. -/
def Reference.reads : Reference → List Effect
  | .name a => a.binding.reads
  | .member .. => []

/-- The effects of writing a reference that was found. -/
def Reference.writes (source : Source) : Reference → List Effect
  | .name a => a.binding.writes source
  | .member .. => []

mutual

/-- The effects of code. -/
def Code.effects {ρ : Rep} : Code ρ → List Effect
  | .constant _ => []
  | .regularExpression .. => []
  | .this => []
  | .callee => []
  | .array elements => listEffects elements
  | .object properties => propertyEffects properties
  | .function f => [.function f]
  | .slot ρ index => [.read (.slot ρ index)]
  | .storeSlot ρ index (.unary (.convert σ _) operand) =>
    operand.effects ++ [.write (.slot ρ index) (.code ⟨σ, operand⟩)]
  | .storeSlot ρ index value => value.effects ++ [.write (.slot ρ index) (.code ⟨ρ, value⟩)]
  | .stepSlot index _ _ => [.read (.slot .double index), .write (.slot .double index) .number]
  | .load place _ => place.effects ++ place.reads
  | .store place value => place.effects ++ (value.effects ++ place.writes (.code ⟨.boxed, value⟩))
  | .combine place _ value => place.effects ++ (place.reads ++ (value.effects ++ place.writes .any))
  | .step place _ _ => place.effects ++ (place.reads ++ place.writes .number)
  | .delete place => place.effects
  | .unary _ operand => operand.effects
  | .binary _ left right => left.effects ++ right.effects
  | .logical _ _ left right => left.effects ++ right.effects
  | .conditional test consequent alternate =>
    test.effects ++ (consequent.effects ++ alternate.effects)
  | .sequence first rest => first.effects ++ rest.effects
  | .callPlace function arguments =>
    function.effects ++ (function.reads ++ listEffects arguments)
  | .call function arguments => function.effects ++ listEffects arguments
  | .construct function arguments => function.effects ++ listEffects arguments

/-- The effects of several pieces of code. -/
def listEffects : List (Code .boxed) → List Effect
  | [] => []
  | c :: rest => c.effects ++ listEffects rest

/-- The effects of the properties of an object literal. -/
def propertyEffects : List PropertyCode → List Effect
  | [] => []
  | .mk _ value :: rest => value.effects ++ propertyEffects rest

/-- The effects of finding the place of a reference. -/
def Reference.effects : Reference → List Effect
  | .name access => access.effects
  | .member object key => object.effects ++ key.effects

end

theorem Code.traced_storeSlot {host : Host} {ρ : Rep} {index : Nat} {value : Code ρ}
    (h : ∀ (σ : Rep) (operand : Code σ), value = .unary (.convert σ ρ) operand → False) :
    (Code.storeSlot ρ index value).traced host = do
      let x ← value.traced host
      tracedSetSlot ρ index (ρ.box x) x
      return x := by
  rw [Code.traced]
  exact h

theorem Code.effects_storeSlot {ρ : Rep} {index : Nat} {value : Code ρ}
    (h : ∀ (σ : Rep) (operand : Code σ), value = .unary (.convert σ ρ) operand → False) :
    (Code.storeSlot ρ index value).effects =
      value.effects ++ [.write (.slot ρ index) (.code ⟨ρ, value⟩)] := by
  rw [Code.effects]
  exact h

mutual

/-- The effects of a statement. -/
def StatementCode.effects : StatementCode → List Effect
  | .block statements => statementEffects statements
  | .effect code => code.effects
  | .complete code => code.effects
  | .ret code => code.effects
  | .brk _ => []
  | .cont _ => []
  | .labeled _ body => body.effects
  | .branch test consequent alternate =>
    test.effects ++ (consequent.effects ++ alternate.effects)
  | .switch _ slot discriminant clauses =>
    discriminant.effects ++ (.write (.slot .boxed slot) .any :: clauseEffects clauses)
  | .throw code => code.effects
  | .tryCatch body param handler =>
    body.effects ++ (param.effects ++ (param.binding.writes .any ++ handler.effects))
  | .tryFinally body finalizer => body.effects ++ finalizer.effects
  | .loop _ test update body => test.effects ++ (update.effects ++ body.effects)
  | .repeat _ body test => body.effects ++ test.effects
  | .forIn _ place object body =>
    object.effects ++ (place.effects ++ (place.writes .string ++ body.effects))

/-- The effects of statements. -/
def statementEffects : List StatementCode → List Effect
  | [] => []
  | s :: rest => s.effects ++ statementEffects rest

/-- The effects of the clauses of a `switch`. -/
def clauseEffects : List ClauseCode → List Effect
  | [] => []
  | .case test body :: rest => test.effects ++ (body.effects ++ clauseEffects rest)
  | .otherwise body :: rest => body.effects ++ clauseEffects rest

end

-- The equations of these functions are made here, once for all the lemmas that use them.
attribute [local grind =] Code.effects StatementCode.effects Code.traced StatementCode.traced

/-- The effects of a body, its entry included. -/
def FunctionCode.effects : FunctionCode → List Effect
  | .mk _ entry body => entry.effects ++ body.effects

/-! ### Computations with events -/

namespace Traced

variable {α β : Type} {known P : Event → Prop} {S : RunState → RunState → Prop}

/-- A computation with events agrees with one without, and `P` holds of its events.  That the events
happen is known. -/
def Follows (known P : Event → Prop) (S : RunState → RunState → Prop) (x : Traced α) (y : Act α) :
    Prop :=
  ∀ ⦃s t⦄, S s t → (∀ e ∈ (x s).1, known e) →
    (∀ e ∈ (x s).1, P e) ∧ (x s).2.Agree S (sameResult S) (y t)

theorem mem_andThen {x : Traced α} {f : α → Traced β} {s : RunState} {e : Event} (h : e ∈ (x s).1) :
    e ∈ (andThen x f s).1 := by
  unfold andThen
  split
  · exact List.mem_append_left _ h
  · exact h
  · exact h

namespace Follows

theorem silent {x y : Act α} (h : Exec.Same S x y) : Follows known P S (Traced.silent x) y :=
  fun _ _ hst _ => ⟨fun _ he => absurd he List.not_mem_nil, h hst⟩

theorem pure (a : α) : Follows known P S (pure a) (pure a) :=
  silent (Exec.Same.pure a)

/-- What comes after a computation may use that the other one yields the same result. -/
theorem bind {x : Traced α} {y : Act α} {f : α → Traced β} {g : α → Act β}
    (h : Follows known P S x y) (hf : ∀ a, y.Yields a → Follows known P S (f a) (g a)) :
    Follows known P S (x >>= f) (y >>= g) := by
  intro s t hst hknown
  change ∀ e ∈ (andThen x f s).1, known e at hknown
  obtain ⟨hevents, hxy⟩ := h hst fun e he => hknown e (mem_andThen he)
  change (∀ e ∈ (andThen x f s).1, P e) ∧
    (andThen x f s).2.Agree S (sameResult S) (Exec.andThen y g t)
  unfold andThen at hknown ⊢
  unfold Exec.andThen
  generalize hx : (x s).2 = p at hxy hknown
  generalize hy : y t = q at hxy
  cases hxy with
  | ok hQ =>
    obtain ⟨rfl, hst'⟩ := hQ
    obtain ⟨hevents', hfg⟩ := hf _ ⟨t, _, hy⟩ hst' fun e he =>
      hknown e (List.mem_append_right _ he)
    exact ⟨List.forall_mem_append.mpr ⟨hevents, hevents'⟩, hfg⟩
  | error hE => exact ⟨hevents, .error hE⟩
  | exhausted => exact ⟨hevents, .exhausted⟩

/-- A computation with one event, which comes before it. -/
theorem noting {e : RunState → Event} {x y : Act α}
    (h : ∀ ⦃s t⦄, S s t → known (e s) → P (e s) ∧ (x s).Agree S (sameResult S) (y t)) :
    Follows known P S (Traced.log e >>= fun _ => Traced.silent x) y := by
  intro s t hst hknown
  change ∀ e' ∈ [e s], known e' at hknown
  change (∀ e' ∈ [e s], P e') ∧ _
  simp only [List.forall_mem_singleton] at hknown ⊢
  exact h hst hknown

theorem event {e : RunState → Event} {x y : Act α}
    (h : Follows known P S (Traced.log e >>= fun _ => Traced.silent x) y) {s t : RunState}
    (hst : S s t) (hknown : known (e s)) : P (e s) :=
  (h hst fun _ he => List.mem_singleton.mp he ▸ hknown).1 _ List.mem_cons_self

theorem ite {c : Prop} [Decidable c] {x x' : Traced α} {y y' : Act α} (h : Follows known P S x y)
    (h' : Follows known P S x' y') :
    Follows known P S (if c then x else x') (if c then y else y') := by
  split
  · exact h
  · exact h'

theorem iterate {x : Traced (Option α)} {y : Act (Option α)} (h : Follows known P S x y) (n : Nat) :
    Follows known P S (Traced.iterate x n) (Exec.iterate y n) := by
  induction n with
  | zero => exact silent Exec.Same.exhaust
  | succ n ih =>
    rw [Exec.iterate_succ]
    refine h.bind fun a _ => ?_
    cases a with
    | none => exact ih
    | some a => exact pure a

theorem firstResult {x : β → Traced (Option α)} {y : β → Act (Option α)} : ∀ l : List β,
    (∀ b ∈ l, Follows known P S (x b) (y b)) →
      Follows known P S (Traced.firstResult x l) (Exec.firstResult y l)
  | [], _ => pure none
  | b :: rest, h => by
    rw [Exec.firstResult_cons]
    refine (h b List.mem_cons_self).bind fun a _ => ?_
    cases a with
    | none => exact firstResult rest fun b hb => h b (List.mem_cons_of_mem _ hb)
    | some a => exact pure (some a)

theorem catching {x : Traced Completion} {y : Act Completion}
    {f : RuntimeError → Traced Completion} {g : RuntimeError → Act Completion}
    (h : Follows known P S x y) (hf : ∀ e, Follows known P S (f e) (g e)) :
    Follows known P S (Traced.catching x f) (ScriptEngine.catching y g) := by
  intro s t hst hknown
  have hfirst : ∀ e ∈ (x s).1, known e := by
    intro e he
    refine hknown e ?_
    unfold Traced.catching
    split
    · exact List.mem_append_left _ he
    · exact he
  obtain ⟨hevents, hxy⟩ := h hst hfirst
  unfold Traced.catching at hknown ⊢
  unfold ScriptEngine.catching
  generalize (x s).2 = p at hxy hknown
  generalize y t = q at hxy
  cases hxy with
  | ok hQ => exact ⟨hevents, .ok hQ⟩
  | error hE =>
    obtain ⟨hevents', hfg⟩ := hf _ hE fun e he => hknown e (List.mem_append_right _ he)
    exact ⟨List.forall_mem_append.mpr ⟨hevents, hevents'⟩, hfg⟩
  | exhausted => exact ⟨hevents, .exhausted⟩

theorem finalizing {x x' : Traced Completion} {y y' : Act Completion} (h : Follows known P S x y)
    (h' : Follows known P S x' y') :
    Follows known P S (Traced.finalizing x x') (ScriptEngine.finalizing y y') := by
  intro s t hst hknown
  have hfirst : ∀ e ∈ (x s).1, known e := by
    intro e he
    refine hknown e ?_
    unfold Traced.finalizing
    split
    · exact List.mem_append_left _ he
    · exact List.mem_append_left _ he
    · exact he
  obtain ⟨hevents, hxy⟩ := h hst hfirst
  unfold Traced.finalizing at hknown ⊢
  unfold ScriptEngine.finalizing
  generalize (x s).2 = p at hxy hknown
  generalize y t = q at hxy
  cases hxy with
  | ok hQ =>
    obtain ⟨hevents', hend⟩ := h' hQ.2 fun e he => hknown e (List.mem_append_right _ he)
    refine ⟨List.forall_mem_append.mpr ⟨hevents, hevents'⟩, ?_⟩
    dsimp only
    generalize (x' _).2 = p at hend
    generalize y' _ = q at hend
    cases hend with
    | @ok a _ s t hQ' =>
      obtain ⟨rfl, hst'⟩ := hQ'
      cases a with
      | normal => exact .ok ⟨hQ.1, hst'⟩
      | _ => exact .ok ⟨rfl, hst'⟩
    | error hE => exact .error hE
    | exhausted => exact .exhausted
  | error hE =>
    obtain ⟨hevents', hend⟩ := h' hE fun e he => hknown e (List.mem_append_right _ he)
    refine ⟨List.forall_mem_append.mpr ⟨hevents, hevents'⟩, ?_⟩
    dsimp only
    generalize (x' _).2 = p at hend
    generalize y' _ = q at hend
    cases hend with
    | @ok a _ s t hQ' =>
      obtain ⟨rfl, hst'⟩ := hQ'
      cases a with
      | normal => exact .error hst'
      | _ => exact .ok ⟨rfl, hst'⟩
    | error hE => exact .error hE
    | exhausted => exact .exhausted
  | exhausted => exact ⟨hevents, .exhausted⟩

end Follows

end Traced

/-! ### Places of references -/

theorem Exec.Yields.of_lift {α : Type} {x : Run α} {a : α} (h : (Act.lift x).Yields a) :
    x.Yields a := by
  obtain ⟨⟨f, m⟩, s', h⟩ := h
  unfold Act.lift at h
  cases hx : x m with
  | ok b n =>
    simp only [hx] at h
    cases h
    exact ⟨m, n, hx⟩
  | error e n =>
    simp only [hx] at h
    cases h
  | exhausted =>
    simp only [hx] at h
    cases h

/-- The places that a reference can be found to be: the variable of a name, or some property. -/
def Reference.CanBe : Reference → Place → Prop
  | .name a, .binding _ b => b = a.binding
  | .member .., .binding .. => False
  | _, .property .. => True

theorem Reference.canBe_of_yields {host : Host} {r : Reference} {p : Place}
    (h : (r.resolve host).Yields p) : r.CanBe p := by
  cases r with
  | name a =>
    rw [Reference.resolve] at h
    obtain ⟨base, -, hp⟩ := Exec.Yields.of_bind h
    cases base with
    | some base => exact hp.of_pure ▸ trivial
    | none => exact hp.of_pure ▸ rfl
  | member object key =>
    rw [Reference.resolve] at h
    obtain ⟨base, -, h⟩ := Exec.Yields.of_bind h
    obtain ⟨key, -, h⟩ := Exec.Yields.of_bind h
    replace h := h.of_lift
    unfold memberPlace at h
    split at h
    · obtain ⟨shown, -, s, s', h⟩ := Exec.Yields.of_bind h
      cases h
    · obtain ⟨key, -, h⟩ := Exec.Yields.of_bind h
      exact h.of_pure ▸ trivial

/-! ### Activations -/

/-- What may relate two activations of the same code: their frames are the same one, of which
something holds that slots and the completion do not matter for, and their machines are related. -/
structure ActivationRelation where
  machines : MachineRelation
  frame : Frame → Prop
  setSlot : ∀ {f}, frame f → ∀ ρ i x, frame (f.setSlot ρ i x)
  completion : ∀ {f}, frame f → ∀ v, frame { f with completion := v }

namespace ActivationRelation

variable (A : ActivationRelation) {α : Type}

/-- The relation between the states of two activations. -/
structure rel (s t : RunState) : Prop where
  same : s.frame = t.frame
  frame : A.frame s.frame
  machine : A.machines.rel s.machine t.machine

variable {A}

theorem same_lift {x y : Run α} (h : A.machines.Same x y) :
    Exec.Same A.rel (Act.lift x) (Act.lift y) := by
  rintro ⟨f, m⟩ ⟨g, n⟩ ⟨hfg, hf, hmn⟩
  have hxy := h hmn
  unfold Act.lift
  dsimp only
  generalize x m = p at hxy ⊢
  generalize y n = q at hxy ⊢
  cases hxy with
  | ok hQ => exact .ok ⟨hQ.1, hfg, hf, hQ.2⟩
  | error hE => exact .error ⟨hfg, hf, hE⟩
  | exhausted => exact .exhausted

theorem same_onFrame (f : Frame → α) : Exec.Same A.rel (Act.onFrame f) (Act.onFrame f) :=
  fun _ _ h => .ok ⟨congrArg f h.same, h⟩

theorem same_onHeap {f g : Heap → α}
    (h : ∀ {h k}, Heap.Similar A.machines.code h k → f h = g k) :
    Exec.Same A.rel (Act.onHeap f) (Act.onHeap g) :=
  fun _ _ hst => .ok ⟨h (A.machines.heap hst.machine), hst⟩

theorem same_setSlot (ρ : Rep) (index : Nat) (x : ρ.Carrier) :
    Exec.Same A.rel (Act.setSlot ρ index x) (Act.setSlot ρ index x) := by
  rintro ⟨f, m⟩ ⟨g, n⟩ ⟨hfg, hf, hmn⟩
  dsimp only at hfg
  subst hfg
  exact .ok ⟨rfl, rfl, A.setSlot hf ρ index x, hmn⟩

theorem same_complete (v : Value) :
    Exec.Same A.rel (Act.changeFrame fun f => { f with completion := v })
      (Act.changeFrame fun f => { f with completion := v }) := by
  rintro ⟨f, m⟩ ⟨g, n⟩ ⟨hfg, hf, hmn⟩
  dsimp only at hfg
  subst hfg
  exact .ok ⟨rfl, rfl, A.completion hf v, hmn⟩

theorem same_putProperty (base : Value) (key : String) (v : Value) :
    Exec.Same A.rel ((Place.property base key).write v) ((Place.property base key).write v) :=
  (same_onFrame (·.strict)).bind fun _ => same_lift (MachineRelation.same_putProperty _ _ _ _)

theorem same_delete (place : Place) : Exec.Same A.rel place.delete place.delete := by
  have hproperty (base : Value) (key : String) (strict : Bool) := same_lift (A := A)
    (MachineRelation.same_deleteProperty base key strict)
  cases place with
  | property base key => exact (same_onFrame (·.strict)).bind fun _ => hproperty _ _ _
  | binding name b =>
    obtain ⟨storage, constant⟩ := b
    unfold Place.delete Binding.delete
    dsimp only
    split
    · refine (same_onHeap fun s => s.hasProperty _ _).bind fun found => .ite ?_ (.pure _)
      exact hproperty _ _ _
    · exact .pure _

/-- A relation between activations on two hosts, and what the events of the first one are to
satisfy.  The computations that are known to happen keep the relation, if they are regular. -/
structure Setting where
  relation : ActivationRelation
  left : Host
  right : Host
  known : Event → Prop
  event : Event → Prop
  rounds : left.rounds = right.rounds
  runs : ∀ {α : Type} {x : Caller → Run α}, Run.Regular x → ∀ {s t}, relation.rel s t →
    event (.run x s) ∧ (known (.run x s) → (x left.call s.machine).Agree relation.machines.rel
      (sameResult relation.machines.rel) (x right.call t.machine))

namespace Setting

/-- Runs on one host whose computations are all known to happen. -/
def onHost (host : Host) (relation : ActivationRelation) (event : Event → Prop)
    (runs : ∀ {α : Type} {x : Caller → Run α}, Run.Regular x → ∀ {s t}, relation.rel s t →
      event (.run x s) ∧ (x host.call s.machine).Agree relation.machines.rel
        (sameResult relation.machines.rel) (x host.call t.machine)) : Setting where
  relation := relation
  left := host
  right := host
  known _ := True
  event := event
  rounds := rfl
  runs hx _ _ hst := ⟨(runs hx hst).1, fun _ => (runs hx hst).2⟩

variable (X : Setting)

/-- A computation with events follows another one without. -/
def Follows (x : Traced α) (y : Act α) : Prop :=
  x.Follows X.known X.event X.relation.rel y

/-- An effect keeps the relation, and its events are as they are to be. -/
def Admits : Effect → Prop
  | .read storage => ∀ lenient, X.Follows (storage.tracedRead lenient) (storage.read lenient)
  | .write storage source => ∀ v, source.Gives X.right v →
    X.Follows (storage.tracedWrite v) (storage.write v)
  | .function f => X.Follows (tracedFunction f) (makeFunction f)

/-- All effects in a list keep the relation. -/
def AdmitsAll (l : List Effect) : Prop :=
  ∀ e ∈ l, X.Admits e

variable {X}

theorem admitsAll_append {l l' : List Effect} (h : X.AdmitsAll (l ++ l')) :
    X.AdmitsAll l ∧ X.AdmitsAll l' :=
  List.forall_mem_append.1 h

theorem admitsAll_cons {e : Effect} {l : List Effect} (h : X.AdmitsAll (e :: l)) :
    X.Admits e ∧ X.AdmitsAll l :=
  List.forall_mem_cons.1 h

/-- A regular computation on the machine. -/
theorem follows_run {x : Caller → Run α} (h : Run.Regular x) :
    X.Follows (tracedRun X.left x) (Act.lift (x X.right.call)) := by
  refine .noting ?_
  rintro ⟨f, m⟩ ⟨g, n⟩ hst hknown
  obtain ⟨hevent, hxy⟩ := X.runs h hst
  refine ⟨hevent, ?_⟩
  have hxy := hxy hknown
  unfold Act.lift
  dsimp only at hxy ⊢
  generalize x X.left.call m = p at hxy ⊢
  generalize x X.right.call n = q at hxy ⊢
  cases hxy with
  | ok hQ => exact .ok ⟨hQ.1, hst.same, hst.frame, hQ.2⟩
  | error hE => exact .error ⟨hst.same, hst.frame, hE⟩
  | exhausted => exact .exhausted

/-! ### Variables and places -/

theorem follows_slot {ρ : Rep} {index : Nat} (h : X.Admits (.read (.slot ρ index))) :
    X.Follows (tracedSlot ρ index) (Act.onFrame (·.slot ρ index)) :=
  .noting fun _ _ hst hknown => ⟨(h false).event hst hknown, same_onFrame _ hst⟩

theorem follows_setSlot {ρ : Rep} {index : Nat} {source : Source}
    (h : X.Admits (.write (.slot ρ index) source)) {v : Value} (hv : source.Gives X.right v)
    (x : ρ.Carrier) : X.Follows (tracedSetSlot ρ index v x) (Act.setSlot ρ index x) :=
  .noting fun _ _ hst hknown => ⟨(h v hv).event hst hknown, same_setSlot ρ index x hst⟩

theorem follows_write {b : Binding} {source : Source}
    (h : X.AdmitsAll (b.writes source)) {v : Value} (hv : source.Gives X.right v) :
    X.Follows (b.tracedWrite v) (b.write v) := by
  obtain ⟨storage, constant⟩ := b
  cases constant with
  | none => exact h _ List.mem_cons_self v hv
  | some name =>
    refine .silent ((same_onFrame (·.strict)).bind fun strict => .ite ?_ (.pure ()))
    exact .raise _ _

theorem follows_probe {name : String} {scope : Binding} (h : X.Admits (.read scope.storage)) :
    X.Follows (Access.tracedProbe name scope) (Access.probe name scope) := by
  refine (h false).bind fun v _ => ?_
  cases v with
  | object r =>
    refine (Traced.Follows.silent (same_onHeap fun s => s.hasProperty r name)).bind
      fun found _ => ?_
    cases found <;> exact .pure _
  | _ => exact .pure _

theorem follows_access {a : Access} (h : X.AdmitsAll a.effects) :
    X.Follows a.traced a.resolve := by
  refine (Traced.Follows.firstResult _ fun scope hscope => follows_probe ?_).bind fun base _ => ?_
  · exact h _ (List.mem_map_of_mem hscope)
  · cases base <;> exact .pure _

theorem follows_read {place : Reference} (h : X.AdmitsAll place.reads) {p : Place}
    (hp : place.CanBe p) (lenient : Bool) :
    X.Follows (p.tracedRead lenient) (p.read lenient) := by
  cases p with
  | property base key => exact .silent (same_lift (MachineRelation.same_getProperty base key))
  | binding name b =>
    cases place with
    | member object key => exact absurd hp id
    | name a =>
      cases hp
      exact h _ List.mem_cons_self lenient

theorem follows_assign {place : Reference} {source : Source} (h : X.AdmitsAll (place.writes source))
    {p : Place} (hp : place.CanBe p) {v : Value} (hv : source.Gives X.right v) :
    X.Follows (p.tracedWrite v) (p.write v) := by
  cases p with
  | property base key => exact .silent (same_putProperty base key v)
  | binding name b =>
    cases place with
    | member object key => exact absurd hp id
    | name a =>
      cases hp
      exact follows_write h hv

/-- A lifted computation on the machines. -/
theorem follows_lift {x y : Run α} (h : X.relation.machines.Same x y) :
    X.Follows (Traced.silent (Act.lift x)) (Act.lift y) :=
  .silent (same_lift h)

/-! ### Code -/

mutual

/-- Code keeps the relation if its effects do. -/
theorem follows_code {ρ : Rep} : ∀ c : Code ρ, X.AdmitsAll c.effects →
    X.Follows (c.traced X.left) (c.eval X.right)
  | .constant x, _ => .pure x
  | .regularExpression pattern flags, _ =>
    follows_lift (MachineRelation.same_new (Heap.adds_newRegularExpression pattern flags))
  | .this, _ => .silent (same_onFrame _)
  | .callee, _ => .silent (same_onFrame _)
  | .array elements, h =>
    (follows_list elements h).bind fun _ _ =>
      follows_lift (MachineRelation.same_new (Heap.adds_newArray _))
  | .object properties, h => by
    refine (follows_lift (MachineRelation.same_new Heap.adds_newObject)).bind fun v _ => ?_
    cases v with
    | object r => exact (follows_properties r properties h).bind fun _ _ => .pure _
    | _ => exact .pure _
  | .function f, h => h _ List.mem_cons_self
  | .slot ρ index, h => follows_slot (h _ List.mem_cons_self)
  | .storeSlot ρ index value, h => by
    have hfollows := follows_code value
    have hconverted := follows_converted value
    by_cases hvalue : ∃ σ operand, value = .unary (.convert σ ρ) operand
    · obtain ⟨σ, operand, rfl⟩ := hvalue
      rw [Code.effects] at h
      obtain ⟨hoperand, hwrite⟩ := admitsAll_append h
      rw [Code.traced, Code.eval, Code.eval, bind_assoc]
      refine (hconverted σ operand rfl hoperand).bind fun x hx => ?_
      refine (follows_run (Run.regular_convert _ _)).bind fun y _ => ?_
      refine (follows_setSlot (hwrite _ List.mem_cons_self) ?_ y).bind fun _ _ => .pure y
      exact ⟨x, hx, rfl⟩
    · have hplain (σ : Rep) (operand : Code σ) (heq : value = .unary (.convert σ ρ) operand) :
          False := hvalue ⟨σ, operand, heq⟩
      rw [Code.effects_storeSlot hplain] at h
      obtain ⟨hvalue, hwrite⟩ := admitsAll_append h
      rw [Code.traced_storeSlot hplain, Code.eval]
      refine (hfollows hvalue).bind fun x hx => ?_
      exact (follows_setSlot (hwrite _ List.mem_cons_self) ⟨x, hx, rfl⟩ x).bind fun _ _ => .pure x
  | .stepSlot index step before, h => by
    obtain ⟨hread, hwrite⟩ := admitsAll_cons h
    refine (follows_slot hread).bind fun old _ => ?_
    refine (follows_setSlot (hwrite _ List.mem_cons_self) ?_ _).bind fun _ _ => .pure _
    exact ⟨_, rfl⟩
  | .load place lenient, h => by
    obtain ⟨hplace, hread⟩ := admitsAll_append h
    refine (follows_reference place hplace).bind fun p hp => ?_
    exact follows_read hread (Reference.canBe_of_yields hp) lenient
  | .store place value, h => by
    obtain ⟨hplace, h⟩ := admitsAll_append h
    obtain ⟨hvalue, hwrite⟩ := admitsAll_append h
    refine (follows_reference place hplace).bind fun p hp => ?_
    refine (follows_code value hvalue).bind fun v hv => ?_
    refine (follows_assign hwrite (Reference.canBe_of_yields hp) ?_).bind fun _ _ => .pure v
    exact ⟨v, hv, rfl⟩
  | .combine place op value, h => by
    obtain ⟨hplace, h⟩ := admitsAll_append h
    obtain ⟨hread, h⟩ := admitsAll_append h
    obtain ⟨hvalue, hwrite⟩ := admitsAll_append h
    refine (follows_reference place hplace).bind fun p hp => ?_
    have hp := Reference.canBe_of_yields hp
    refine (follows_read hread hp false).bind fun old _ => ?_
    refine (follows_code value hvalue).bind fun v _ => ?_
    refine (follows_run (Run.regular_binary op old v)).bind fun new _ => ?_
    exact (follows_assign hwrite hp trivial).bind fun _ _ => .pure new
  | .step place step before, h => by
    obtain ⟨hplace, h⟩ := admitsAll_append h
    obtain ⟨hread, hwrite⟩ := admitsAll_append h
    refine (follows_reference place hplace).bind fun p hp => ?_
    have hp := Reference.canBe_of_yields hp
    refine (follows_read hread hp false).bind fun old _ => ?_
    refine (follows_run (Run.regular_toNumber old)).bind fun old _ => ?_
    exact (follows_assign hwrite hp ⟨_, rfl⟩).bind fun _ _ => .pure _
  | .delete place, h => (follows_reference place h).bind fun p _ => .silent (same_delete p)
  | .unary form operand, h =>
    (follows_code operand h).bind fun _ _ => follows_run (Run.regular_unaryForm form _)
  | .binary form left right, h => by
    obtain ⟨hleft, hright⟩ := admitsAll_append h
    refine (follows_code left hleft).bind fun x _ => (follows_code right hright).bind fun y _ => ?_
    exact follows_run (Run.regular_binaryForm form x y)
  | .logical ρ op left right, h => by
    obtain ⟨hleft, hright⟩ := admitsAll_append h
    exact (follows_code left hleft).bind fun x _ => .ite (follows_code right hright) (.pure x)
  | .conditional test consequent alternate, h => by
    obtain ⟨htest, h⟩ := admitsAll_append h
    obtain ⟨hconsequent, halternate⟩ := admitsAll_append h
    exact (follows_code test htest).bind fun _ _ =>
      .ite (follows_code consequent hconsequent) (follows_code alternate halternate)
  | .sequence first rest, h => by
    obtain ⟨hfirst, hrest⟩ := admitsAll_append h
    exact (follows_code first hfirst).bind fun _ _ => follows_code rest hrest
  | .callPlace function arguments, h => by
    obtain ⟨hplace, h⟩ := admitsAll_append h
    obtain ⟨hread, harguments⟩ := admitsAll_append h
    refine (follows_reference function hplace).bind fun p hp => ?_
    refine (follows_read hread (Reference.canBe_of_yields hp) false).bind fun f _ => ?_
    refine (follows_list arguments harguments).bind fun values _ => ?_
    exact follows_run (Run.regular_callAtPlace p f values)
  | .call function arguments, h => by
    obtain ⟨hfunction, harguments⟩ := admitsAll_append h
    refine (follows_code function hfunction).bind fun f _ => ?_
    exact (follows_list arguments harguments).bind fun values _ => follows_run (.call _ _ _)
  | .construct function arguments, h => by
    obtain ⟨hfunction, harguments⟩ := admitsAll_append h
    refine (follows_code function hfunction).bind fun f _ => ?_
    refine (follows_list arguments harguments).bind fun values _ => ?_
    exact follows_run (Run.regular_construct f values)

/-- What is converted is code of its own. -/
theorem follows_converted {ρ : Rep} : ∀ (c : Code ρ) (σ : Rep) (operand : Code σ),
    c = .unary (.convert σ ρ) operand → X.AdmitsAll operand.effects →
      X.Follows (operand.traced X.left) (operand.eval X.right)
  | .unary _ operand => by
    have h := follows_code operand
    rintro _ _ ⟨⟩
    exact h
  | .constant _ | .regularExpression .. | .this | .callee | .array _ | .object _ | .function _
  | .slot .. | .storeSlot .. | .stepSlot .. | .load .. | .store .. | .combine .. | .step ..
  | .delete _ | .binary .. | .logical .. | .conditional .. | .sequence .. | .callPlace .. | .call ..
  | .construct .. => nofun

theorem follows_list : ∀ cs : List (Code .boxed), X.AdmitsAll (listEffects cs) →
    X.Follows (tracedList X.left cs) (evalList X.right cs)
  | [], _ => .pure []
  | c :: rest, h => by
    obtain ⟨hc, hrest⟩ := admitsAll_append h
    exact (follows_code c hc).bind fun v _ => (follows_list rest hrest).bind fun vs _ => .pure _

theorem follows_properties (r : Ref) : ∀ ps : List PropertyCode, X.AdmitsAll (propertyEffects ps) →
    X.Follows (tracedProperties X.left r ps) (putProperties X.right r ps)
  | [], _ => .pure ()
  | .mk key value :: rest, h => by
    obtain ⟨hvalue, hrest⟩ := admitsAll_append h
    refine (follows_code value hvalue).bind fun v _ => ?_
    refine (follows_lift (MachineRelation.same_putOwn r key v)).bind fun _ _ => ?_
    exact follows_properties r rest hrest

theorem follows_reference : ∀ r : Reference, X.AdmitsAll r.effects →
    X.Follows (r.traced X.left) (r.resolve X.right)
  | .name access, h => follows_access h
  | .member object key, h => by
    obtain ⟨hobject, hkey⟩ := admitsAll_append h
    refine (follows_code object hobject).bind fun base _ => ?_
    refine (follows_code key hkey).bind fun key _ => ?_
    exact follows_run (Run.regular_memberPlace base key)

end

/-! ### Statements -/

theorem follows_visit {r : Ref} {key : String} {assign : Value → Traced Unit}
    {assign' : Value → Act Unit} {body : Traced Completion} {body' : Act Completion}
    {target : TargetId} (ha : X.Follows (assign (.string key)) (assign' (.string key)))
    (hb : X.Follows body body') :
    X.Follows (tracedVisit r key assign body target) (visitKey r key assign' body' target) := by
  refine (Traced.Follows.silent (same_onHeap fun s => s.hasProperty r key)).bind fun _ _ => ?_
  exact .ite (ha.bind fun _ _ => hb.bind fun _ _ => .pure _) (.pure none)

theorem follows_keys (v : Value) {assign : Value → Traced Unit} {assign' : Value → Act Unit}
    {body : Traced Completion} {body' : Act Completion} {target : TargetId}
    (ha : ∀ key, X.Follows (assign (.string key)) (assign' (.string key)))
    (hb : X.Follows body body') :
    X.Follows (tracedKeys v assign body target) (forKeys v assign' body' target) := by
  refine .ite (.pure _) ?_
  refine (follows_lift (MachineRelation.same_toObject v)).bind fun o _ => ?_
  cases o with
  | object r =>
    refine (Traced.Follows.silent (same_onHeap fun s => s.enumerate r)).bind fun keys _ => ?_
    refine (Traced.Follows.firstResult keys fun key _ => ?_).bind fun _ _ => .pure _
    exact follows_visit (ha key) hb
  | _ => exact .pure _

mutual

/-- A statement keeps the relation if its effects do. -/
theorem follows_statement : ∀ s : StatementCode, X.AdmitsAll s.effects →
    X.Follows (s.traced X.left) (s.exec X.right)
  | .block statements, h => follows_statements statements h
  | .effect code, h => (follows_code code h).bind fun _ _ => .pure _
  | .complete code, h =>
    (follows_code code h).bind fun v _ =>
      (Traced.Follows.silent (same_complete v)).bind fun _ _ => .pure _
  | .ret code, h => (follows_code code h).bind fun _ _ => .pure _
  | .brk target, _ => .pure _
  | .cont target, _ => .pure _
  | .labeled target body, h => (follows_statement body h).bind fun _ _ => .pure _
  | .branch test consequent alternate, h => by
    obtain ⟨htest, h⟩ := admitsAll_append h
    obtain ⟨hconsequent, halternate⟩ := admitsAll_append h
    exact (follows_code test htest).bind fun _ _ =>
      .ite (follows_statement consequent hconsequent) (follows_statement alternate halternate)
  | .switch target slot discriminant clauses, h => by
    obtain ⟨hdiscriminant, h⟩ := admitsAll_append h
    obtain ⟨hslot, hclauses⟩ := admitsAll_cons h
    refine (follows_code discriminant hdiscriminant).bind fun v _ => ?_
    refine (follows_setSlot hslot trivial v).bind fun _ _ => ?_
    refine (follows_find 0 clauses hclauses).bind fun matching _ => ?_
    cases switchStart clauses matching with
    | some start => exact (follows_clauses start clauses hclauses).bind fun _ _ => .pure _
    | none => exact .pure _
  | .throw code, h => (follows_code code h).bind fun v _ => .silent (.fail _)
  | .tryCatch body param handler, h => by
    obtain ⟨hbody, h⟩ := admitsAll_append h
    obtain ⟨hparam, h⟩ := admitsAll_append h
    obtain ⟨hwrite, hhandler⟩ := admitsAll_append h
    refine .catching (follows_statement body hbody) fun e => ?_
    refine (follows_lift (MachineRelation.same_errorValue e)).bind fun v _ => ?_
    refine (follows_access hparam).bind fun p hp => ?_
    have hplace : (Reference.name param).CanBe p := @Reference.canBe_of_yields X.right _ _ hp
    have hwrites : X.AdmitsAll ((Reference.name param).writes .any) := hwrite
    refine (follows_assign hwrites hplace trivial).bind fun _ _ => ?_
    exact follows_statement handler hhandler
  | .tryFinally body finalizer, h => by
    obtain ⟨hbody, hfinalizer⟩ := admitsAll_append h
    exact .finalizing (follows_statement body hbody) (follows_statement finalizer hfinalizer)
  | .loop target test update body, h => by
    obtain ⟨htest, h⟩ := admitsAll_append h
    obtain ⟨hupdate, hbody⟩ := admitsAll_append h
    rw [StatementCode.traced, StatementCode.exec, X.rounds]
    refine .iterate ((follows_code test htest).bind fun _ _ => .ite ?_ (.pure _)) _
    refine (follows_statement body hbody).bind fun c _ => ?_
    cases c.afterBody target with
    | some ended => exact .pure _
    | none => exact (follows_statement update hupdate).bind fun _ _ => .pure _
  | .repeat target body test, h => by
    obtain ⟨hbody, htest⟩ := admitsAll_append h
    rw [StatementCode.traced, StatementCode.exec, X.rounds]
    refine .iterate ((follows_statement body hbody).bind fun c _ => ?_) _
    cases c.afterBody target with
    | some ended => exact .pure _
    | none => exact (follows_code test htest).bind fun _ _ => .ite (.pure _) (.pure _)
  | .forIn target place object body, h => by
    obtain ⟨hobject, h⟩ := admitsAll_append h
    obtain ⟨hplace, h⟩ := admitsAll_append h
    obtain ⟨hwrite, hbody⟩ := admitsAll_append h
    refine (follows_code object hobject).bind fun v _ => ?_
    refine follows_keys v (fun key => ?_) (follows_statement body hbody)
    refine (follows_reference place hplace).bind fun p hp => ?_
    exact follows_assign hwrite (Reference.canBe_of_yields hp) ⟨key, rfl⟩

theorem follows_statements : ∀ ss : List StatementCode, X.AdmitsAll (statementEffects ss) →
    X.Follows (tracedStatements X.left ss) (execList X.right ss)
  | [], _ => .pure _
  | s :: rest, h => by
    obtain ⟨hs, hrest⟩ := admitsAll_append h
    refine (follows_statement s hs).bind fun c _ => ?_
    cases c with
    | normal => exact follows_statements rest hrest
    | _ => exact .pure _

theorem follows_find (index : Nat) : ∀ cs : List ClauseCode, X.AdmitsAll (clauseEffects cs) →
    X.Follows (tracedFind X.left index cs) (findClause X.right index cs)
  | [], _ => .pure _
  | .case test _ :: rest, h => by
    obtain ⟨htest, h⟩ := admitsAll_append h
    exact (follows_code test htest).bind fun _ _ =>
      .ite (.pure _) (follows_find (index + 1) rest (admitsAll_append h).2)
  | .otherwise _ :: rest, h => follows_find (index + 1) rest (admitsAll_append h).2

theorem follows_clauses (start : Nat) : ∀ cs : List ClauseCode, X.AdmitsAll (clauseEffects cs) →
    X.Follows (tracedClauses X.left start cs) (execClauses X.right start cs)
  | [], _ => .pure _
  | .case _ body :: rest, h => by
    obtain ⟨hbody, hrest⟩ := admitsAll_append (admitsAll_append h).2
    refine .ite ?_ (follows_clauses (start - 1) rest hrest)
    refine (follows_statement body hbody).bind fun c _ => ?_
    cases c with
    | normal => exact follows_clauses 0 rest hrest
    | _ => exact .pure _
  | .otherwise body :: rest, h => by
    obtain ⟨hbody, hrest⟩ := admitsAll_append h
    refine .ite ?_ (follows_clauses (start - 1) rest hrest)
    refine (follows_statement body hbody).bind fun c _ => ?_
    cases c with
    | normal => exact follows_clauses 0 rest hrest
    | _ => exact .pure _

end

end Setting

end ActivationRelation

/-! ### Activations related to themselves -/

namespace ActivationRelation

/-- Only equal activations are related, and changes that keep the depth and the limit of calls do
not matter. -/
structure IsDiagonal (A : ActivationRelation) : Prop where
  eq : ∀ {m n}, A.machines.rel m n → m = n
  keeps : ∀ {m n}, A.machines.rel m m → n.depth = m.depth → n.limit = m.limit → A.machines.rel n n

variable {A : ActivationRelation} {α : Type}

namespace IsDiagonal

/-- The two activations are one. -/
theorem eq_of_rel (hA : A.IsDiagonal) {s t : RunState} (h : A.rel s t) : s = t := by
  obtain ⟨f, m⟩ := s
  obtain ⟨g, n⟩ := t
  obtain ⟨hfg, -, hmn⟩ := h
  obtain rfl := hA.eq hmn
  cases hfg
  rfl

/-- What changes the heap or the records of the machine only. -/
theorem same_of_machine (hA : A.IsDiagonal) {x : Act α} (h : ∀ s, ∃ a heap records,
    x s = .ok a ⟨s.frame, { s.machine with heap, records }⟩) : Exec.Same A.rel x x := by
  intro s t hst
  obtain rfl := hA.eq_of_rel hst
  obtain ⟨a, heap, records, hx⟩ := h s
  rw [hx]
  exact .ok ⟨rfl, rfl, hst.frame, hA.keeps hst.machine rfl rfl⟩

theorem same_record (number : Nat) : Exec.Same A.rel (Act.record number) (Act.record number) := by
  refine (same_onFrame _).bind fun r => ?_
  cases r.join with
  | some r => exact .pure r
  | none => exact .raise _ _

theorem same_readField (hA : A.IsDiagonal) (address : FieldAddress) :
    Exec.Same A.rel (Act.readField address) (Act.readField address) :=
  (same_record _).bind fun r => hA.same_of_machine fun s =>
    ⟨s.machine.records.get r address.index, _, _, rfl⟩

theorem same_writeField (hA : A.IsDiagonal) (address : FieldAddress) (v : Value) :
    Exec.Same A.rel (Act.writeField address v) (Act.writeField address v) :=
  (same_record _).bind fun r =>
    hA.same_of_machine fun s => ⟨(), _, s.machine.records.set r address.index v, rfl⟩

theorem same_argumentsObject (hA : A.IsDiagonal) (via : Option FieldAddress) :
    Exec.Same A.rel (Act.argumentsObject via) (Act.argumentsObject via) := by
  cases via with
  | none => exact same_onFrame _
  | some address => exact hA.same_readField address

theorem same_storageRead (hA : A.IsDiagonal) (lenient : Bool) (storage : Storage) :
    Exec.Same A.rel (storage.read lenient) (storage.read lenient) := by
  cases storage with
  | global name =>
    refine (same_onHeap fun s => s.hasProperty _ name).bind fun found => .ite ?_ ?_
    · exact same_onHeap fun s => s.get _ name
    · exact .ite (.pure _) (.raise _ _)
  | parameter index via =>
    exact (hA.same_argumentsObject via).bind fun arguments => same_onHeap fun s =>
      s.parameter arguments index
  | slot ρ index => exact same_onFrame (fun f => ρ.box (f.slot ρ index))
  | field address => exact hA.same_readField address

theorem same_storageWrite (hA : A.IsDiagonal) (v : Value) (storage : Storage) :
    Exec.Same A.rel (storage.write v) (storage.write v) := by
  cases storage with
  | global name =>
    refine (same_onFrame _).bind fun strict =>
      (same_onHeap fun s => s.hasProperty _ name).bind fun found => ?_
    exact .ite (.raise _ _) (same_lift (MachineRelation.same_putOwn _ name v))
  | parameter index via =>
    refine (hA.same_argumentsObject via).bind fun arguments => ?_
    exact same_lift (MachineRelation.same_changeHeap fun s => .setParameter s arguments index v)
  | slot ρ index => exact same_setSlot ρ index _
  | field address => exact hA.same_writeField address v

theorem same_makeFunction (hA : A.IsDiagonal) (code : FunctionCode) :
    Exec.Same A.rel (makeFunction code) (makeFunction code) :=
  (same_onFrame _).bind fun _ => hA.same_of_machine fun s => ⟨_, _, s.machine.records, rfl⟩

theorem same_keepArguments (hA : A.IsDiagonal) (info : FunctionInfo) :
    Exec.Same A.rel (keepArguments info) (keepArguments info) := by
  refine (same_onFrame _).bind fun arguments => (same_onFrame _).bind fun own => ?_
  have hslot : Exec.Same A.rel (info.slotArguments arguments) (info.slotArguments arguments) := by
    unfold FunctionInfo.slotArguments
    cases info.argumentsSlot with
    | some slot => exact same_setSlot _ _ _
    | none => exact .pure _
  cases info.argumentsField with
  | none => exact hslot
  | some field =>
    cases own with
    | none => exact hslot
    | some r =>
      refine (hA.same_of_machine fun s => ?_).bind fun _ => hslot
      exact ⟨(), _, s.machine.records.set r field arguments, rfl⟩

theorem same_declareGlobals : ∀ names : List String,
    Exec.Same A.rel (declareGlobals names) (declareGlobals names)
  | [] => .pure _
  | name :: rest => by
    unfold declareGlobals
    refine (same_onHeap fun s => s.hasProperty _ name).bind fun found => ?_
    cases found with
    | true => exact same_declareGlobals rest
    | false =>
      exact (same_lift (MachineRelation.same_putOwn _ _ _)).bind fun _ => same_declareGlobals rest

end IsDiagonal

namespace Setting

variable {X : Setting}

/-- A body keeps a relation of equal activations if its effects do. -/
theorem follows_function (hX : X.relation.IsDiagonal) :
    ∀ code : FunctionCode, X.AdmitsAll code.effects →
    X.Follows (code.traced X.left) (code.exec X.right)
  | .mk info entry body, h => by
    obtain ⟨hentry, hbody⟩ := admitsAll_append h
    have hkeep : X.Follows (Traced.silent (keepArguments info)) (keepArguments info) :=
      .silent (hX.same_keepArguments info)
    have hglobals : X.Follows (Traced.silent (declareGlobals info.globals))
        (declareGlobals info.globals) :=
      .silent (IsDiagonal.same_declareGlobals _)
    refine hkeep.bind fun _ _ => hglobals.bind fun _ _ => ?_
    exact (follows_statement entry hentry).bind fun _ _ => follows_statement body hbody

end Setting

end ActivationRelation

end ScriptEngine
