import ScriptEngine.Proofs.Code.Effect
import ScriptEngine.Proofs.Run.Activation

/-!
# Code on closed activations

Code without objects among its constants keeps activations closed, wherever in a run one looks.  The
events of a run come one after the other: what an event leaves behind is the past of all later ones,
so that no object ever has another prototype than at an earlier event.

## Main definitions

* `Event.Closed` : events on closed activations.
* `Event.Before` : what an event leaves behind is the past of a heap.
* `Traced.Keeps` : computations with events that keep activations closed.

## Main statements

* `Traced.Keeps.bind`, `Traced.Keeps.catching`, `Traced.Keeps.finalizing` : composed computations.
* `keeps_code`, `keeps_statement`, `keeps_body` : code without objects keeps activations closed.
-/

namespace ScriptEngine

variable {α β : Type}

/-! ### Events -/

/-- An event on a closed activation; computations that begin there keep closed machines closed if
their calls do. -/
def Event.Closed : Event → Prop
  | .run x s => s.Closed ∧ Run.KeepsCalling s.machine.heap.size x
  | .read _ s | .write _ _ s | .function _ s => s.Closed

/-- The machine that an event leaves behind. -/
def Event.after? (host : Host) : Event → Option Machine
  | .run x s => (x host.call s.machine).state?
  | .read _ s | .write _ _ s | .function _ s => some s.machine

/-- An event leaves a machine behind, and a heap came from this machine. -/
def Event.Before (host : Host) (h : Heap) (e : Event) : Prop :=
  ∃ m, e.after? host = some m ∧ m.heap.KeepsLinks h

theorem Event.Closed.state {e : Event} (h : e.Closed) : e.state.Closed := by
  cases e with
  | run x s => exact h.1
  | _ => exact h

theorem Event.Before.trans {host : Host} {h k : Heap} {e : Event} (he : e.Before host h)
    (hk : h.KeepsLinks k) : e.Before host k := by
  obtain ⟨m, hm, hl⟩ := he
  exact ⟨m, hm, hl.trans hk⟩

/-- Events on closed activations that begin on a heap and come one after the other. -/
structure Trail (host : Host) (h : Heap) (events : List Event) : Prop where
  closed : ∀ e ∈ events, e.Closed
  links : ∀ e ∈ events, h.KeepsLinks e.state.machine.heap
  ordered : events.Pairwise fun e e' => e.Before host e'.state.machine.heap

namespace Trail

variable {host : Host} {h k : Heap} {l l' : List Event}

theorem nil : Trail host h [] :=
  ⟨fun _ he => absurd he List.not_mem_nil, fun _ he => absurd he List.not_mem_nil, .nil⟩

theorem append (hl : Trail host h l) (hk : h.KeepsLinks k) (hl' : Trail host k l')
    (hbefore : ∀ e ∈ l, e.Before host k) : Trail host h (l ++ l') where
  closed := List.forall_mem_append.mpr ⟨hl.closed, hl'.closed⟩
  links := List.forall_mem_append.mpr ⟨hl.links, fun e he => hk.trans (hl'.links e he)⟩
  ordered := List.pairwise_append.mpr ⟨hl.ordered, hl'.ordered, fun e he e' he' =>
    (hbefore e he).trans (hl'.links e' he')⟩

end Trail

/-! ### Computations with events -/

/-- Events come one after the other, and the ending after them leaves a closed activation behind. -/
structure Traced.Outcome (host : Host) (h : Heap) (Q : Nat → α → Prop)
    (p : List Event × Ending RunState RuntimeError α) : Prop where
  trail : Trail host h p.1
  ending : p.2.Closes h Q
  before : ∀ t, p.2.state? = some t → ∀ e ∈ p.1, e.Before host t.machine.heap

/-- A computation with events keeps closed activations with at least `n` objects closed. -/
def Traced.Keeps (host : Host) (n : Nat) (Q : Nat → α → Prop) (x : Traced α) : Prop :=
  ∀ ⦃s : RunState⦄, s.Closed → n ≤ s.machine.heap.size → Traced.Outcome host s.machine.heap Q (x s)

namespace Traced

variable {host : Host} {h k : Heap} {n m : Nat} {Q Q' : Nat → α → Prop} {P : Nat → β → Prop}

namespace Outcome

/-- What comes after a computation that ended. -/
theorem append {l l' : List Event} {p : Ending RunState RuntimeError α}
    {q : Ending RunState RuntimeError β} {s : RunState} (hx : Outcome host h Q (l, p))
    (hs : p.state? = some s) (hy : Outcome host s.machine.heap P (l', q)) :
    Outcome host h P (l ++ l', q) := by
  have hlinks : h.KeepsLinks s.machine.heap := (hx.ending.state hs).2
  refine ⟨hx.trail.append hlinks hy.trail (hx.before s hs), hy.ending.trans hlinks, fun t ht => ?_⟩
  obtain ⟨-, hst⟩ := hy.ending.state ht
  exact List.forall_mem_append.mpr ⟨fun e he => (hx.before s hs e he).trans hst, hy.before t ht⟩

/-- Another ending with the same state. -/
theorem replace {l : List Event} {p : Ending RunState RuntimeError α}
    {q : Ending RunState RuntimeError β} (hx : Outcome host h Q (l, p)) (hq : q.Closes h P)
    (hpq : q.state? = p.state?) : Outcome host h P (l, q) :=
  ⟨hx.trail, hq, fun t ht => hx.before t (hpq ▸ ht)⟩

end Outcome

namespace Keeps

variable {x y : Traced α}

theorem weaken (hx : x.Keeps host n Q) (hnm : n ≤ m) : x.Keeps host m Q :=
  fun _ hs hm => hx hs (Nat.le_trans hnm hm)

theorem silent {x : Act α} (hx : x.Keeps n Q) : (silent x).Keeps host n Q :=
  fun _ hs hn => ⟨.nil, hx hs hn, fun _ _ _ he => absurd he List.not_mem_nil⟩

theorem pure {a : α} (ha : ∀ k, n ≤ k → Q k a) : (Pure.pure a : Traced α).Keeps host n Q :=
  silent (.pure ha)

theorem any (a : α) : (Pure.pure a : Traced α).Keeps host n Anything :=
  silent (.any a)

/-- The events and the ending of a computation, apart. -/
theorem outcome (hx : x.Keeps host n Q) {s : RunState} (hs : s.Closed)
    (hn : n ≤ s.machine.heap.size) :
    Outcome host s.machine.heap Q ((x s).1, (x s).2) :=
  hx hs hn

theorem bind {f : α → Traced β} (hx : x.Keeps host n Q)
    (hf : ∀ a k, n ≤ k → Q k a → (f a).Keeps host k P) : (x >>= f).Keeps host n P := by
  intro s hs hn
  have hfirst := hx.outcome hs hn
  change Outcome host s.machine.heap P (andThen x f s)
  unfold andThen
  generalize (x s).1 = l at hfirst ⊢
  generalize (x s).2 = p at hfirst ⊢
  cases hfirst.ending with
  | @ok a t closed links result =>
    exact hfirst.append rfl (hf a _ (Nat.le_trans hn links.size_le) result closed (Nat.le_refl _))
  | error closed links below => exact hfirst.replace (.error closed links below) rfl
  | exhausted => exact hfirst.replace .exhausted rfl

theorem ite {c : Prop} [Decidable c] (hx : x.Keeps host n Q) (hy : y.Keeps host n Q) :
    Keeps host n Q (if c then x else y) := by
  split
  · exact hx
  · exact hy

theorem iterate {step : Traced (Option α)} (hQ : ∀ {n k a}, Q n a → n ≤ k → Q k a)
    (hstep : step.Keeps host n fun k a => ∀ b ∈ a, Q k b) (rounds : Nat) :
    (Traced.iterate step rounds).Keeps host n Q := by
  induction rounds with
  | zero => exact silent .exhaust
  | succ rounds ih =>
    refine hstep.bind fun a k hk ha => ?_
    cases a with
    | none => exact ih.weaken hk
    | some a => exact pure fun _ hle => hQ (ha a rfl) hle

theorem firstResult {step : β → Traced (Option α)} (hQ : ∀ {n k a}, Q n a → n ≤ k → Q k a) :
    ∀ l : List β, (∀ b ∈ l, (step b).Keeps host n fun k a => ∀ b ∈ a, Q k b) →
      (Traced.firstResult step l).Keeps host n fun k a => ∀ b ∈ a, Q k b
  | [], _ => pure fun _ _ _ hb => nomatch hb
  | b :: rest, h => by
    refine (h b List.mem_cons_self).bind fun a k hk ha => ?_
    cases a with
    | none => exact (firstResult hQ rest fun b hb => h b (List.mem_cons_of_mem _ hb)).weaken hk
    | some a =>
      refine pure fun _ hle b hb => ?_
      cases hb
      exact hQ (ha a rfl) hle

theorem catching {body : Traced Completion} {handler : RuntimeError → Traced Completion}
    {Q : Nat → Completion → Prop} (hbody : body.Keeps host n Q)
    (hhandler : ∀ e k, n ≤ k → e.Below k → (handler e).Keeps host k Q) :
    (Traced.catching body handler).Keeps host n Q := by
  intro s hs hn
  have hfirst := hbody.outcome hs hn
  unfold Traced.catching
  generalize (body s).1 = l at hfirst ⊢
  generalize (body s).2 = p at hfirst ⊢
  cases hfirst.ending with
  | ok closed links result => exact hfirst
  | @error e t closed links below =>
    exact hfirst.append rfl (hhandler e _ (Nat.le_trans hn links.size_le) below closed
      (Nat.le_refl _))
  | exhausted => exact hfirst

theorem finalizing {body finalizer : Traced Completion} {Q : Nat → Completion → Prop}
    (hQ : ∀ {n k a}, Q n a → n ≤ k → Q k a) (hbody : body.Keeps host n Q)
    (hfinalizer : finalizer.Keeps host n Q) :
    (Traced.finalizing body finalizer).Keeps host n Q := by
  intro s hs hn
  have hfirst := hbody.outcome hs hn
  unfold Traced.finalizing
  generalize (body s).1 = l at hfirst ⊢
  generalize (body s).2 = p at hfirst ⊢
  cases hfirst.ending with
  | @ok c t closed links result =>
    have hlast := hfinalizer.outcome closed (Nat.le_trans hn links.size_le)
    dsimp only
    generalize (finalizer t).1 = l' at hlast ⊢
    generalize (finalizer t).2 = q at hlast ⊢
    refine hfirst.append rfl ?_
    cases hlast.ending with
    | @ok c' u closed' links' result' =>
      cases c' with
      | normal => exact hlast.replace (.ok closed' links' (hQ result links'.size_le)) rfl
      | _ => exact hlast
    | error closed' links' below' => exact hlast
    | exhausted => exact hlast
  | @error e t closed links below =>
    have hlast := hfinalizer.outcome closed (Nat.le_trans hn links.size_le)
    dsimp only
    generalize (finalizer t).1 = l' at hlast ⊢
    generalize (finalizer t).2 = q at hlast ⊢
    refine hfirst.append rfl ?_
    cases hlast.ending with
    | @ok c' u closed' links' result' =>
      cases c' with
      | normal => exact hlast.replace (.error closed' links' (below.mono links'.size_le)) rfl
      | _ => exact hlast
    | error closed' links' below' => exact hlast
    | exhausted => exact hlast
  | exhausted => exact hfirst

/-- A computation with one event, which comes before it and leaves the machine as it is. -/
theorem noting {e : RunState → Event} {x : Act α} (hx : x.Keeps n Q)
    (he : ∀ {s : RunState}, s.Closed → (e s).Closed ∧ (e s).state = s ∧
      (e s).after? host = some s.machine) :
    (log e >>= fun _ => Traced.silent x).Keeps host n Q := by
  refine bind (Q := Anything) (fun s hs _ => ?_) fun _ _ hk _ => silent (hx.weaken hk)
  obtain ⟨hclosed, hstate, hafter⟩ := he hs
  refine ⟨⟨?_, ?_, List.pairwise_singleton _ _⟩, .ok hs (.refl _) trivial, ?_⟩
  · exact List.forall_mem_singleton.mpr hclosed
  · refine List.forall_mem_singleton.mpr ?_
    rw [hstate]
    exact .refl _
  · rintro t ht
    cases ht
    exact List.forall_mem_singleton.mpr ⟨_, hafter, .refl _⟩

end Keeps

end Traced

section Code

variable {host : Host} {n : Nat}

open Traced

/-! ### Variables and places -/

theorem keeps_tracedRead (lenient : Bool) (storage : Storage) :
    (storage.tracedRead lenient).Keeps host n Value.Below :=
  .noting (storage.keeps_read lenient) fun hs => ⟨hs, rfl, rfl⟩

theorem keeps_tracedWrite {v : Value} (hv : v.Below n) (storage : Storage) :
    (storage.tracedWrite v).Keeps host n Anything :=
  .noting (storage.keeps_write hv) fun hs => ⟨hs, rfl, rfl⟩

theorem keeps_bindingWrite (b : Binding) {v : Value} (hv : v.Below n) :
    (b.tracedWrite v).Keeps host n Anything := by
  unfold Binding.tracedWrite
  split
  · exact keeps_tracedWrite hv _
  · exact .silent (b.keeps_write hv)

theorem keeps_tracedSlot (ρ : Rep) (index : Nat) : (tracedSlot ρ index).Keeps host n ρ.Below :=
  .noting (Act.keeps_onFrame fun _ h => h.slot ρ index) fun hs => ⟨hs, rfl, rfl⟩

theorem keeps_tracedSetSlot {ρ : Rep} (index : Nat) (v : Value) {x : ρ.Carrier} (hx : ρ.Below n x) :
    (tracedSetSlot ρ index v x).Keeps host n Anything :=
  .noting (Act.keeps_setSlot index hx) fun hs => ⟨hs, rfl, rfl⟩

theorem keeps_tracedFunction {code : FunctionCode} (h : code.Primitive) :
    (tracedFunction code).Keeps host n Value.Below :=
  .noting (keeps_makeFunction h) fun hs => ⟨hs, rfl, rfl⟩

/-- A computation that may make calls, which is an event before it begins. -/
theorem keeps_tracedRun {x : Caller → Run α} {Q : Nat → α → Prop} (hcall : host.call.Keeps)
    (hx : ∀ call, Caller.Keeps call → (x call).Keeps n Q) : (tracedRun host x).Keeps host n Q := by
  rintro ⟨frame, m⟩ hs hn
  have hend := Act.keeps_lift (hx host.call hcall) hs hn
  have hclosed : (Event.run x ⟨frame, m⟩).Closed :=
    ⟨hs, fun call hcall => ((hx call hcall).weaken hn).forget⟩
  refine ⟨⟨?_, ?_, List.pairwise_singleton _ _⟩, hend, fun t ht => ?_⟩
  · exact List.forall_mem_singleton.mpr hclosed
  · exact List.forall_mem_singleton.mpr (.refl _)
  · refine List.forall_mem_singleton.mpr ?_
    change (Act.lift (x host.call) ⟨frame, m⟩).state? = some t at ht
    unfold Act.lift at ht
    dsimp only at ht
    refine ⟨t.machine, ?_, .refl _⟩
    change (x host.call m).state? = some t.machine
    generalize x host.call m = p at ht ⊢
    cases p with
    | exhausted => cases ht
    | _ =>
      cases ht
      rfl

theorem keeps_tracedProbe (name : String) (scope : Binding) :
    (Access.tracedProbe name scope).Keeps host n fun k v => ∀ w ∈ v, w.Below k := by
  refine (keeps_tracedRead false scope.storage).bind fun v _ _ hv => ?_
  cases v with
  | object r =>
    refine (Keeps.silent (Act.keeps_look _)).bind fun _ _ hk _ => .ite (.pure fun _ hle w hw => ?_)
      (.pure fun _ _ w hw => nomatch hw)
    cases hw
    exact Nat.lt_of_lt_of_le hv (Nat.le_trans hk hle)
  | _ => exact .pure fun _ _ w hw => nomatch hw

theorem keeps_access (a : Access) : a.traced.Keeps host n Place.Below := by
  refine (Keeps.firstResult (Q := Value.Below) Value.Below.mono a.scopes fun scope _ =>
    keeps_tracedProbe a.name scope).bind fun base k _ hbase => ?_
  cases base with
  | some base => exact .pure fun _ hle => (hbase base rfl).mono hle
  | none => exact .pure fun _ _ => trivial

theorem keeps_placeRead {p : Place} (hp : p.Below n) (lenient : Bool) :
    (p.tracedRead lenient).Keeps host n Value.Below := by
  cases p with
  | binding name b => exact keeps_tracedRead lenient b.storage
  | property base key => exact .silent (Place.keeps_read hp lenient)

theorem keeps_placeWrite (p : Place) {v : Value} (hv : v.Below n) :
    (p.tracedWrite v).Keeps host n Anything := by
  cases p with
  | binding name b => exact keeps_bindingWrite b hv
  | property base key => exact .silent (Place.keeps_write _ hv)

/-! ### Code -/

mutual

/-- Code without objects keeps activations closed, and so is what it yields. -/
theorem keeps_code (hcall : host.call.Keeps) {ρ : Rep} :
    ∀ c : Code ρ, c.Primitive → (c.traced host).Keeps host n ρ.Below
  | .constant x, h => .pure fun _ _ => Value.below_of_primitive h
  | .regularExpression pattern flags, _ =>
    .silent (Act.keeps_lift (Run.keeps_new fun c _ => c.newRegularExpression pattern flags))
  | .this, _ => .silent (Act.keeps_onFrame fun _ h => h.this)
  | .callee, _ => .silent (Act.keeps_onFrame fun _ h => h.callee)
  | .array elements, h =>
    (keeps_list hcall elements h).bind fun _ _ _ hvalues =>
      .silent (Act.keeps_lift (Run.keeps_new fun c hle => c.newArray (.ofList (hvalues.mono hle))))
  | .object properties, h => by
    refine (Keeps.silent (Act.keeps_lift (Run.keeps_new fun c _ => c.newObject))).bind
      fun v k hk hv => ?_
    cases v with
    | object r =>
      refine ((keeps_properties hcall r properties h).weaken hk).bind fun _ _ _ _ =>
        .pure fun _ hle => ?_
      exact Value.Below.mono (v := .object r) hv (Nat.le_trans ‹_› hle)
    | _ => exact .pure fun _ _ => trivial
  | .function f, h => keeps_tracedFunction h
  | .slot ρ index, _ => keeps_tracedSlot ρ index
  | .storeSlot ρ index value, h => by
    have hkeeps := keeps_code hcall value
    have hconverted := keeps_converted hcall value
    by_cases hvalue : ∃ σ operand, value = .unary (.convert σ ρ) operand
    · obtain ⟨σ, operand, rfl⟩ := hvalue
      rw [Code.traced]
      refine (hconverted σ operand rfl h).bind fun x k hk hx => ?_
      refine (keeps_tracedRun hcall fun call hc => Run.keeps_convert hc ρ hx).bind
        fun y l hl hy => ?_
      exact (keeps_tracedSetSlot index _ hy).bind fun _ _ hi _ => .pure fun _ hle =>
        hy.mono (Nat.le_trans hi hle)
    · have hplain (σ : Rep) (operand : Code σ) (heq : value = .unary (.convert σ ρ) operand) :
          False := hvalue ⟨σ, operand, heq⟩
      rw [Code.traced_storeSlot hplain]
      refine (hkeeps h).bind fun x k hk hx => ?_
      exact (keeps_tracedSetSlot index _ hx).bind fun _ _ hi _ => .pure fun _ hle =>
        hx.mono (Nat.le_trans hi hle)
  | .stepSlot index step before, _ => by
    refine (keeps_tracedSlot .double index).bind fun old _ _ _ => ?_
    exact (keeps_tracedSetSlot (ρ := .double) index _ trivial).bind fun _ _ _ _ =>
      .pure fun _ _ => trivial
  | .load place lenient, h =>
    (keeps_reference hcall place h).bind fun _ _ _ hp => keeps_placeRead hp lenient
  | .store place value, h => by
    obtain ⟨hplace, hvalue⟩ := h
    refine (keeps_reference hcall place hplace).bind fun p k hk _ => ?_
    refine ((keeps_code hcall value hvalue).weaken hk).bind fun v l hl hv => ?_
    exact (keeps_placeWrite p hv).bind fun _ _ hi _ => .pure fun _ hle =>
      hv.mono (Nat.le_trans hi hle)
  | .combine place op value, h => by
    obtain ⟨hplace, hvalue⟩ := h
    refine (keeps_reference hcall place hplace).bind fun p k hk hp => ?_
    refine (keeps_placeRead hp false).bind fun old l hl hold => ?_
    refine ((keeps_code hcall value hvalue).weaken (Nat.le_trans hk hl)).bind fun v i hi hv => ?_
    refine (keeps_tracedRun hcall fun call hc => Run.keeps_binary hc (hold.mono hi) hv op).bind
      fun new _ _ hnew => ?_
    exact (keeps_placeWrite p hnew).bind fun _ _ hi _ => .pure fun _ hle =>
      hnew.mono (Nat.le_trans hi hle)
  | .step place step before, h => by
    refine (keeps_reference hcall place h).bind fun p k hk hp => ?_
    refine (keeps_placeRead hp false).bind fun old l hl hold => ?_
    refine (keeps_tracedRun hcall fun call hc => Run.keeps_toNumber hc hold).bind
      fun old _ _ _ => ?_
    exact (keeps_placeWrite p (v := .number _) trivial).bind fun _ _ _ _ => .pure fun _ _ => trivial
  | .delete place, h =>
    (keeps_reference hcall place h).bind fun p _ _ _ =>
      .silent (p.keeps_delete.mono fun _ _ => trivial)
  | .unary form operand, h =>
    (keeps_code hcall operand h).bind fun _ _ _ hx =>
      keeps_tracedRun hcall fun _ hc => Run.keeps_unaryForm hc form hx
  | .binary form left right, h => by
    obtain ⟨hleft, hright⟩ := h
    refine (keeps_code hcall left hleft).bind fun x k hk hx => ?_
    refine ((keeps_code hcall right hright).weaken hk).bind fun y l hl hy => ?_
    exact keeps_tracedRun hcall fun call hc => Run.keeps_binaryForm hc form (hx.mono hl) hy
  | .logical ρ op left right, h => by
    obtain ⟨hleft, hright⟩ := h
    exact (keeps_code hcall left hleft).bind fun _ _ hk hx =>
      .ite ((keeps_code hcall right hright).weaken hk) (.pure fun _ hle => hx.mono hle)
  | .conditional test consequent alternate, h => by
    obtain ⟨htest, hconsequent, halternate⟩ := h
    exact (keeps_code hcall test htest).bind fun _ _ hk _ =>
      .ite ((keeps_code hcall consequent hconsequent).weaken hk)
        ((keeps_code hcall alternate halternate).weaken hk)
  | .sequence first rest, h => by
    obtain ⟨hfirst, hrest⟩ := h
    exact (keeps_code hcall first hfirst).bind fun _ _ hk _ =>
      (keeps_code hcall rest hrest).weaken hk
  | .callPlace function arguments, h => by
    obtain ⟨hplace, harguments⟩ := h
    refine (keeps_reference hcall function hplace).bind fun p k hk hp => ?_
    refine (keeps_placeRead hp false).bind fun f l hl hf => ?_
    refine ((keeps_list hcall arguments harguments).weaken (Nat.le_trans hk hl)).bind
      fun values i hi hvalues => ?_
    exact keeps_tracedRun hcall fun call hc =>
      Run.keeps_callAtPlace hc (hp.mono (Nat.le_trans hl hi)) (hf.mono hi) hvalues
  | .call function arguments, h => by
    obtain ⟨hfunction, harguments⟩ := h
    refine (keeps_code hcall function hfunction).bind fun f k hk hf => ?_
    refine ((keeps_list hcall arguments harguments).weaken hk).bind fun values l hl hvalues => ?_
    exact keeps_tracedRun hcall fun call hc =>
      hc (hf.mono hl) (show Value.Below l .undefined from trivial) hvalues
  | .construct function arguments, h => by
    obtain ⟨hfunction, harguments⟩ := h
    refine (keeps_code hcall function hfunction).bind fun f k hk hf => ?_
    refine ((keeps_list hcall arguments harguments).weaken hk).bind fun values l hl hvalues => ?_
    exact keeps_tracedRun hcall fun call hc => Run.keeps_construct hc (hf.mono hl) hvalues

/-- What is converted is code of its own. -/
theorem keeps_converted (hcall : host.call.Keeps) {ρ : Rep} :
    ∀ (c : Code ρ) (σ : Rep) (operand : Code σ),
    c = .unary (.convert σ ρ) operand → operand.Primitive →
      (operand.traced host).Keeps host n σ.Below
  | .unary _ operand => by
    have h := keeps_code hcall operand
    rintro _ _ ⟨⟩
    exact h
  | .constant _ | .regularExpression .. | .this | .callee | .array _ | .object _ | .function _
  | .slot .. | .storeSlot .. | .stepSlot .. | .load .. | .store .. | .combine .. | .step ..
  | .delete _ | .binary .. | .logical .. | .conditional .. | .sequence .. | .callPlace .. | .call ..
  | .construct .. => nofun

theorem keeps_list (hcall : host.call.Keeps) : ∀ cs : List (Code .boxed), listPrimitive cs →
    (tracedList host cs).Keeps host n ListBelow
  | [], _ => .pure fun _ _ => .nil
  | c :: rest, h => by
    obtain ⟨hc, hrest⟩ := h
    refine (keeps_code hcall c hc).bind fun v k hk hv =>
      ((keeps_list hcall rest hrest).weaken hk).bind fun vs l hl hvs => ?_
    refine .pure fun i hi => List.forall_mem_cons.mpr ⟨?_, hvs.mono hi⟩
    exact Value.Below.mono hv (Nat.le_trans hl hi)

theorem keeps_properties (hcall : host.call.Keeps) (r : Ref) :
    ∀ ps : List PropertyCode, propertiesPrimitive ps →
    (tracedProperties host r ps).Keeps host n Anything
  | [], _ => .any ()
  | .mk key value :: rest, h => by
    obtain ⟨hvalue, hrest⟩ := h
    refine (keeps_code hcall value hvalue).bind fun v k hk hv => ?_
    refine (Keeps.silent (Act.keeps_lift (Run.keeps_putOwn r key hv))).bind fun _ _ hl _ => ?_
    exact (keeps_properties hcall r rest hrest).weaken (Nat.le_trans hk hl)

theorem keeps_reference (hcall : host.call.Keeps) :
    ∀ r : Reference, r.Primitive → (r.traced host).Keeps host n Place.Below
  | .name access, _ => keeps_access access
  | .member object key, h => by
    obtain ⟨hobject, hkey⟩ := h
    refine (keeps_code hcall object hobject).bind fun base k hk hb => ?_
    refine ((keeps_code hcall key hkey).weaken hk).bind fun key l hl hkey => ?_
    exact keeps_tracedRun hcall fun call hc => Run.keeps_memberPlace hc (hb.mono hl) hkey

end

/-! ### Statements -/

/-- The value that a statement returns is primitive or among the first `n` objects. -/
def Completion.Below (n : Nat) : Completion → Prop
  | .ret v => v.Below n
  | _ => True

theorem Completion.Below.mono {n k : Nat} {c : Completion} (h : c.Below n) (hnk : n ≤ k) :
    c.Below k := by
  cases c with
  | ret v => exact Value.Below.mono h hnk
  | _ => trivial

theorem Completion.Below.leaving {c : Completion} (h : c.Below n) (target : TargetId) :
    (c.leaving target).Below n := by
  cases c with
  | brk t =>
    unfold Completion.leaving
    dsimp only
    split <;> trivial
  | _ => exact h

theorem Completion.Below.afterBody {c : Completion} (h : c.Below n) (target : TargetId) :
    ∀ d ∈ c.afterBody target, d.Below n := by
  intro d hd
  cases c with
  | normal => cases hd
  | ret v =>
    cases hd
    exact h
  | brk t =>
    cases hd
    split <;> trivial
  | cont t =>
    unfold Completion.afterBody at hd
    dsimp only at hd
    split at hd
    · cases hd
    · cases hd
      trivial

theorem keeps_visit (r : Ref) (key : String) {assign : Value → Traced Unit}
    {body : Traced Completion} (target : TargetId)
    (ha : (assign (.string key)).Keeps host n Anything) (hb : body.Keeps host n Completion.Below) :
    (tracedVisit r key assign body target).Keeps host n fun k c => ∀ d ∈ c, d.Below k := by
  refine (Keeps.silent (Act.keeps_look _)).bind fun _ k hk _ =>
    .ite ?_ (.pure fun _ _ d hd => nomatch hd)
  refine (ha.weaken hk).bind fun _ l hl _ =>
    (hb.weaken (Nat.le_trans hk hl)).bind fun c _ _ hc => ?_
  exact .pure fun _ hle => (hc.mono hle).afterBody target

theorem keeps_keys {v : Value} (hv : v.Below n) {assign : Value → Traced Unit}
    {body : Traced Completion} (target : TargetId)
    (ha : ∀ key, (assign (.string key)).Keeps host n Anything)
    (hb : body.Keeps host n Completion.Below) :
    (tracedKeys v assign body target).Keeps host n Completion.Below := by
  refine .ite (.pure fun _ _ => trivial) ?_
  refine (Keeps.silent (Act.keeps_lift (Run.keeps_toObject hv))).bind fun o k hk _ => ?_
  cases o with
  | object r =>
    refine (Keeps.silent (Act.keeps_look _)).bind fun keys l hl _ => ?_
    have hle := Nat.le_trans hk hl
    refine (Keeps.firstResult (Q := Completion.Below) Completion.Below.mono keys fun key _ =>
      keeps_visit r key target ((ha key).weaken hle) (hb.weaken hle)).bind
        fun ended _ _ hended => ?_
    refine .pure fun _ hle => ?_
    cases ended with
    | some c => exact (hended c rfl).mono hle
    | none => trivial
  | _ => exact .pure fun _ _ => trivial

mutual

/-- Statements without objects keep activations closed. -/
theorem keeps_statement (hcall : host.call.Keeps) : ∀ s : StatementCode, s.Primitive →
    (s.traced host).Keeps host n Completion.Below
  | .block statements, h => keeps_statements hcall statements h
  | .effect code, h => (keeps_code hcall code h).bind fun _ _ _ _ => .pure fun _ _ => trivial
  | .complete code, h => by
    refine (keeps_code hcall code h).bind fun v k _ hv => ?_
    have hset : (Act.changeFrame fun f => { f with completion := v }).Keeps k Anything :=
      Act.keeps_changeFrame fun hle hf =>
        ⟨hf.this, hf.callee, hf.arguments, hf.values, Value.Below.mono hv hle⟩
    exact (Keeps.silent hset).bind fun _ _ _ _ => .pure fun _ _ => trivial
  | .ret code, h =>
    (keeps_code hcall code h).bind fun _ _ _ hv => .pure fun _ hle => Value.Below.mono hv hle
  | .brk target, _ => .pure fun _ _ => trivial
  | .cont target, _ => .pure fun _ _ => trivial
  | .labeled target body, h =>
    (keeps_statement hcall body h).bind fun _ _ _ hc => .pure fun _ hle =>
      (hc.mono hle).leaving target
  | .branch test consequent alternate, h => by
    obtain ⟨htest, hconsequent, halternate⟩ := h
    exact (keeps_code hcall test htest).bind fun _ _ hk _ =>
      .ite ((keeps_statement hcall consequent hconsequent).weaken hk)
        ((keeps_statement hcall alternate halternate).weaken hk)
  | .switch target slot discriminant clauses, h => by
    obtain ⟨hdiscriminant, hclauses⟩ := h
    refine (keeps_code hcall discriminant hdiscriminant).bind fun v k hk hv => ?_
    refine (keeps_tracedSetSlot (ρ := .boxed) slot v hv).bind fun _ l hl _ => ?_
    have hle := Nat.le_trans hk hl
    refine ((keeps_find hcall 0 clauses hclauses).weaken hle).bind fun matching i hi _ => ?_
    split
    · refine ((keeps_clauses hcall _ clauses hclauses).weaken (Nat.le_trans hle hi)).bind
        fun c _ _ hc => ?_
      exact .pure fun _ hle => (hc.mono hle).leaving target
    · exact .pure fun _ _ => trivial
  | .throw code, h =>
    (keeps_code hcall code h).bind fun _ _ _ hv =>
      .silent (.fail fun _ hle => Value.Below.mono hv hle)
  | .tryCatch body param handler, h => by
    obtain ⟨hbody, hhandler⟩ := h
    refine .catching (keeps_statement hcall body hbody) fun e k hk he => ?_
    refine (Keeps.silent (Act.keeps_lift (Run.keeps_errorValue he))).bind fun v l hl hv => ?_
    refine (keeps_access param).bind fun p i hi _ => ?_
    refine (keeps_placeWrite p (hv.mono hi)).bind fun _ j hj _ => ?_
    exact (keeps_statement hcall handler hhandler).weaken
      (Nat.le_trans hk (Nat.le_trans hl (Nat.le_trans hi hj)))
  | .tryFinally body finalizer, h => by
    obtain ⟨hbody, hfinalizer⟩ := h
    exact .finalizing Completion.Below.mono (keeps_statement hcall body hbody)
      (keeps_statement hcall finalizer hfinalizer)
  | .loop target test update body, h => by
    obtain ⟨htest, hupdate, hbody⟩ := h
    refine Keeps.iterate (Q := Completion.Below) Completion.Below.mono ?_ _
    refine (keeps_code hcall test htest).bind fun _ k hk _ => .ite ?_ (.pure fun _ _ d hd => ?_)
    · refine ((keeps_statement hcall body hbody).weaken hk).bind fun c l hl hc => ?_
      have hafter := hc.afterBody target
      generalize c.afterBody target = after at hafter ⊢
      cases after with
      | some ended =>
        refine .pure fun _ hle d hd => ?_
        cases hd
        exact (hafter _ rfl).mono hle
      | none =>
        refine ((keeps_statement hcall update hupdate).weaken (Nat.le_trans hk hl)).bind
          fun _ _ _ _ => ?_
        exact .pure fun _ _ d hd => nomatch hd
    · cases hd
      trivial
  | .repeat target body test, h => by
    obtain ⟨hbody, htest⟩ := h
    refine Keeps.iterate (Q := Completion.Below) Completion.Below.mono ?_ _
    refine (keeps_statement hcall body hbody).bind fun c k hk hc => ?_
    have hafter := hc.afterBody target
    generalize c.afterBody target = after at hafter ⊢
    cases after with
    | some ended =>
      refine .pure fun _ hle d hd => ?_
      cases hd
      exact (hafter _ rfl).mono hle
    | none =>
      refine ((keeps_code hcall test htest).weaken hk).bind fun _ _ _ _ =>
        .ite ?_ (.pure fun _ _ d hd => ?_)
      · exact .pure fun _ _ d hd => nomatch hd
      · cases hd
        trivial
  | .forIn target place object body, h => by
    obtain ⟨hplace, hobject, hbody⟩ := h
    refine (keeps_code hcall object hobject).bind fun v k hk hv => ?_
    refine keeps_keys hv target (fun key => ?_) ((keeps_statement hcall body hbody).weaken hk)
    refine ((keeps_reference hcall place hplace).weaken hk).bind fun p _ _ _ => ?_
    exact keeps_placeWrite p (v := .string key) trivial

theorem keeps_statements (hcall : host.call.Keeps) :
    ∀ ss : List StatementCode, statementsPrimitive ss →
    (tracedStatements host ss).Keeps host n Completion.Below
  | [], _ => .pure fun _ _ => trivial
  | s :: rest, h => by
    obtain ⟨hs, hrest⟩ := h
    refine (keeps_statement hcall s hs).bind fun c k hk hc => ?_
    cases c with
    | normal => exact (keeps_statements hcall rest hrest).weaken hk
    | _ => exact .pure fun _ hle => hc.mono hle

theorem keeps_find (hcall : host.call.Keeps) (index : Nat) :
    ∀ cs : List ClauseCode, clausesPrimitive cs →
    (tracedFind host index cs).Keeps host n Anything
  | [], _ => .any none
  | .case test _ :: rest, h => by
    obtain ⟨htest, -, hrest⟩ := h
    exact (keeps_code hcall test htest).bind fun _ _ hk _ =>
      .ite (.any _) ((keeps_find hcall (index + 1) rest hrest).weaken hk)
  | .otherwise _ :: rest, h => keeps_find hcall (index + 1) rest h.2

theorem keeps_clauses (hcall : host.call.Keeps) (start : Nat) :
    ∀ cs : List ClauseCode, clausesPrimitive cs →
    (tracedClauses host start cs).Keeps host n Completion.Below
  | [], _ => .pure fun _ _ => trivial
  | .case _ body :: rest, h => by
    obtain ⟨-, hbody, hrest⟩ := h
    refine .ite ?_ (keeps_clauses hcall (start - 1) rest hrest)
    refine (keeps_statement hcall body hbody).bind fun c k hk hc => ?_
    cases c with
    | normal => exact (keeps_clauses hcall 0 rest hrest).weaken hk
    | _ => exact .pure fun _ hle => hc.mono hle
  | .otherwise body :: rest, h => by
    obtain ⟨hbody, hrest⟩ := h
    refine .ite ?_ (keeps_clauses hcall (start - 1) rest hrest)
    refine (keeps_statement hcall body hbody).bind fun c k hk hc => ?_
    cases c with
    | normal => exact (keeps_clauses hcall 0 rest hrest).weaken hk
    | _ => exact .pure fun _ hle => hc.mono hle

end

/-- A body without objects keeps activations closed. -/
theorem keeps_body (hcall : host.call.Keeps) : ∀ code : FunctionCode, code.Primitive →
    (code.traced host).Keeps host n Completion.Below
  | .mk info entry body, h => by
    obtain ⟨hentry, hbody⟩ := h
    refine (Keeps.silent (keeps_keepArguments info)).bind fun _ k hk _ => ?_
    refine (Keeps.silent (keeps_declareGlobals info.globals)).bind fun _ l hl _ => ?_
    have hle := Nat.le_trans hk hl
    refine ((keeps_statement hcall entry hentry).weaken hle).bind fun _ i hi _ => ?_
    exact (keeps_statement hcall body hbody).weaken (Nat.le_trans hle hi)

end Code

end ScriptEngine
