import ScriptEngine.Run.Evaluate
import ScriptEngine.Proofs.Heap.Closed
import ScriptEngine.Proofs.Run.Agreement

/-!
# Computations on closed states

A state is closed if its heap is, and if all values in it are primitive or objects of this heap.  A
computation keeps closed states closed if each ending leaves a closed state behind, in which no
object has another prototype than before, and if the result or the error is from this heap as well.
The values that a computation is given stay good while the heap grows, so they are only required to
be among the first objects.

## Main definitions

* `HasHeap` : states with a heap, and the closed ones among them.
* `Ending.Closes` : endings with a closed state.
* `Exec.Keeps` : computations that keep closed states closed.

## Main statements

* `Exec.Keeps.bind`, `Exec.Keeps.firstResult` : composed computations.
* `Run.keeps_getProperty`, `Run.keeps_putProperty`, `Run.keeps_callable` : what the machine does
  without calls.
-/

namespace ScriptEngine

/-! ### States -/

/-- States with a heap.  In a closed one all values are primitive or objects of the heap. -/
class HasHeap (σ : Type) where
  heap : σ → Heap
  Closed : σ → Prop
  closed_heap : ∀ {s}, Closed s → (heap s).Closed

/-- The values of all fields of records are primitive or among the first `n` objects. -/
def Records.Closed (n : Nat) (rs : Records) : Prop :=
  ∀ r i, (rs.get r i).Below n

/-- All values of a machine are primitive or objects of its heap. -/
structure Machine.Closed (m : Machine) : Prop where
  heap : m.heap.Closed
  records : m.records.Closed m.heap.size

instance : HasHeap Machine where
  heap := Machine.heap
  Closed := Machine.Closed
  closed_heap := Machine.Closed.heap

/-- A value that is thrown is primitive or among the first `n` objects. -/
def RuntimeError.Below (n : Nat) : RuntimeError → Prop
  | .thrown v => v.Below n
  | .raised .. => True

/-- The value that a result stands for is primitive or among the first `n` objects. -/
def Rep.Below (ρ : Rep) (n : Nat) (x : ρ.Carrier) : Prop :=
  (ρ.box x).Below n

/-- All values of a list are primitive or among the first `n` objects. -/
def ListBelow (n : Nat) (values : List Value) : Prop :=
  ∀ v ∈ values, v.Below n

theorem RuntimeError.Below.mono {n k : Nat} {e : RuntimeError} (h : e.Below n) (hnk : n ≤ k) :
    e.Below k := by
  cases e with
  | thrown v => exact Value.Below.mono h hnk
  | raised kind message => trivial

theorem ListBelow.nil {n : Nat} : ListBelow n [] :=
  fun _ hv => absurd hv List.not_mem_nil

theorem ListBelow.mono {n k : Nat} {values : List Value} (h : ListBelow n values) (hnk : n ≤ k) :
    ListBelow k values :=
  fun v hv => (h v hv).mono hnk

/-- No property of results, in a heap of any size. -/
abbrev Anything {α : Type} : Nat → α → Prop :=
  fun _ _ => True

variable {σ α β : Type} [HasHeap σ]

open HasHeap

/-- An ending leaves a closed state behind, in which the objects of a heap have the same prototypes.
Its result has a property in the heap of this state. -/
inductive Ending.Closes (h : Heap) (Q : Nat → α → Prop) : Ending σ RuntimeError α → Prop where
  | ok {a : α} {s : σ} (closed : Closed s) (links : h.KeepsLinks (heap s))
    (result : Q (heap s).size a) :
    Ending.Closes h Q (.ok a s)
  | error {e : RuntimeError} {s : σ} (closed : Closed s) (links : h.KeepsLinks (heap s))
    (below : e.Below (heap s).size) : Ending.Closes h Q (.error e s)
  | exhausted : Ending.Closes h Q .exhausted

namespace Ending.Closes

variable {h k : Heap} {Q Q' : Nat → α → Prop} {x : Ending σ RuntimeError α}

theorem mono (hx : x.Closes h Q) (hQ : ∀ {n a}, h.size ≤ n → Q n a → Q' n a) : x.Closes h Q' := by
  cases hx with
  | ok closed links result => exact .ok closed links (hQ links.size_le result)
  | error closed links below => exact .error closed links below
  | exhausted => exact .exhausted

theorem trans (hx : x.Closes k Q) (hk : h.KeepsLinks k) : x.Closes h Q := by
  cases hx with
  | ok closed links result => exact .ok closed (hk.trans links) result
  | error closed links below => exact .error closed (hk.trans links) below
  | exhausted => exact .exhausted

/-- The state that is left behind. -/
theorem state (hx : x.Closes h Q) {s : σ} (hs : x.state? = some s) :
    Closed s ∧ h.KeepsLinks (heap s) := by
  cases hx with
  | ok closed links result =>
    cases hs
    exact ⟨closed, links⟩
  | error closed links below =>
    cases hs
    exact ⟨closed, links⟩
  | exhausted => cases hs

end Ending.Closes

/-! ### Computations -/

/-- A computation keeps closed states with at least `n` objects closed, and its results have a
property. -/
def Exec.Keeps (n : Nat) (Q : Nat → α → Prop) (x : Exec σ α) : Prop :=
  ∀ ⦃s⦄, Closed s → n ≤ (heap s).size → (x s).Closes (heap s) Q

namespace Exec.Keeps

variable {n k : Nat} {Q Q' : Nat → α → Prop} {P : Nat → β → Prop} {x y : Exec σ α}

theorem weaken (h : x.Keeps n Q) (hnk : n ≤ k) : x.Keeps k Q :=
  fun _ hs hk => h hs (Nat.le_trans hnk hk)

theorem mono (h : x.Keeps n Q) (hQ : ∀ {k a}, n ≤ k → Q k a → Q' k a) : x.Keeps n Q' :=
  fun _ hs hn => (h hs hn).mono fun hle => hQ (Nat.le_trans hn hle)

theorem forget (h : x.Keeps n Q) : x.Keeps n Anything :=
  h.mono fun _ _ => trivial

theorem of_ok (h : x.Keeps n Q) {s t : σ} (hs : Closed s) (hn : n ≤ (heap s).size) {a : α}
    (ht : x s = .ok a t) : Closed t ∧ (heap s).KeepsLinks (heap t) ∧ Q (heap t).size a := by
  have hx := h hs hn
  rw [ht] at hx
  cases hx with
  | ok closed links result => exact ⟨closed, links, result⟩

theorem pure {a : α} (h : ∀ k, n ≤ k → Q k a) : (pure a : Exec σ α).Keeps n Q :=
  fun _ hs hn => .ok hs (.refl _) (h _ hn)

theorem any (a : α) : (Pure.pure a : Exec σ α).Keeps n Anything :=
  pure fun _ _ => trivial

theorem bind {f : α → Exec σ β} (h : x.Keeps n Q)
    (hf : ∀ a k, n ≤ k → Q k a → (f a).Keeps k P) : (x >>= f).Keeps n P := by
  intro s hs hn
  change (andThen x f s).Closes _ P
  have hx := h hs hn
  unfold andThen
  generalize x s = p at hx ⊢
  cases hx with
  | ok closed links result =>
    exact (hf _ _ (Nat.le_trans hn links.size_le) result closed (Nat.le_refl _)).trans links
  | error closed links below => exact .error closed links below
  | exhausted => exact .exhausted

theorem fail {e : RuntimeError} (h : ∀ k, n ≤ k → e.Below k) : (fail e : Exec σ α).Keeps n Q :=
  fun _ hs hn => .error hs (.refl _) (h _ hn)

theorem raise (kind : ErrorKind) (message : String) : (raise kind message : Exec σ α).Keeps n Q :=
  fail fun _ _ => trivial

theorem exhaust : (exhaust : Exec σ α).Keeps n Q :=
  fun _ _ _ => .exhausted

theorem ite {c : Prop} [Decidable c] (h : x.Keeps n Q) (h' : y.Keeps n Q) :
    Keeps n Q (if c then x else y) := by
  split
  · exact h
  · exact h'

theorem firstResult {step : β → Exec σ (Option α)} (hQ : ∀ {n k a}, Q n a → n ≤ k → Q k a) :
    ∀ l : List β, (∀ b ∈ l, (step b).Keeps n fun k a => ∀ b ∈ a, Q k b) →
      (Exec.firstResult step l).Keeps n fun k a => ∀ b ∈ a, Q k b
  | [], _ => pure fun _ _ => nofun
  | b :: rest, h => by
    rw [firstResult_cons]
    refine (h b List.mem_cons_self).bind fun a k hk ha => ?_
    cases a with
    | none => exact (firstResult hQ rest fun b hb => h b (List.mem_cons_of_mem _ hb)).weaken hk
    | some a =>
      refine pure fun _ hle b hb => ?_
      cases hb
      exact hQ (ha a rfl) hle

end Exec.Keeps

/-! ### The machine -/

namespace Run

variable {n : Nat} {Q : Nat → α → Prop}

theorem keeps_onHeap {f : Heap → α}
    (h : ∀ {heap : Heap}, heap.Closed → n ≤ heap.size → Q heap.size (f heap)) :
    (onHeap f).Keeps n Q :=
  fun _ hm hn => .ok hm (.refl _) (h hm.heap hn)

theorem keeps_look (f : Heap → α) : (onHeap f).Keeps n Anything :=
  keeps_onHeap fun _ _ => trivial

/-- What a machine becomes when its heap does. -/
theorem closed_withHeap {m : Machine} (hm : m.Closed) {h : Heap} (a : m.heap.Ahead h) :
    ({ m with heap := h } : Machine).Closed :=
  ⟨a.closed, fun r i => (hm.records r i).mono a.links.size_le⟩

theorem keeps_changeHeap {f : Heap → Heap}
    (h : ∀ {heap : Heap}, heap.Closed → n ≤ heap.size → heap.Ahead (f heap)) :
    (changeHeap f).Keeps n Anything := by
  intro m hm hn
  have ha := h hm.heap hn
  exact .ok (closed_withHeap hm ha) ha.links trivial

theorem keeps_new {f : Heap → Ref × Heap}
    (h : ∀ {heap : Heap}, heap.Closed → n ≤ heap.size → heap.Added (f heap)) :
    (new f).Keeps n Value.Below := by
  intro m hm hn
  have ha := h hm.heap hn
  exact .ok (closed_withHeap hm ha.toAhead) ha.links ha.ref_lt

theorem keeps_display (v : Value) : (display v).Keeps n Anything :=
  keeps_look _

theorem keeps_write (text : String) : (write text).Keeps n Anything :=
  fun _ hm _ => .ok ⟨hm.heap, hm.records⟩ (.refl _) trivial

theorem keeps_nested {x : Run α} (h : x.Keeps n Q) : (nested x).Keeps n Q := by
  intro m hm hn
  unfold nested
  split
  · have hx := h (s := { m with depth := m.depth + 1 }) ⟨hm.heap, hm.records⟩ hn
    generalize x _ = p at hx ⊢
    cases hx with
    | ok closed links result => exact .ok ⟨closed.heap, closed.records⟩ links result
    | error closed links below => exact .error ⟨closed.heap, closed.records⟩ links below
    | exhausted => exact .exhausted
  · exact .error hm (.refl _) trivial

/-! ### Properties -/

theorem keeps_preparePrototype {r : Ref} (hr : r < n) (key : String) :
    (preparePrototype r key).Keeps n Anything :=
  .ite (keeps_changeHeap fun c hn => c.ensurePrototype (Nat.lt_of_lt_of_le hr hn))
    (.pure fun _ _ => trivial)

theorem below_stringProperty {h : Heap} (c : h.Closed) (s key : String) :
    (stringProperty h s key).Below h.size := by
  unfold stringProperty
  split
  · trivial
  · split
    · trivial
    · exact c.get _ key

theorem keeps_getProperty {v : Value} (hv : v.Below n) (key : String) :
    (getProperty v key).Keeps n Value.Below := by
  cases v with
  | object r =>
    refine (keeps_preparePrototype hv key).bind fun _ _ _ _ => ?_
    exact keeps_onHeap fun c _ => c.get r key
  | undefined | null => exact .raise _ _
  | string s => exact keeps_onHeap fun c _ => below_stringProperty c s key
  | number x => exact keeps_onHeap fun c _ => c.get _ key
  | boolean b => exact keeps_onHeap fun c _ => c.get _ key

theorem keeps_putOwn (r : Ref) (key : String) {v : Value} (hv : v.Below n) :
    (putOwn r key v).Keeps n Anything := by
  refine (keeps_look _).bind fun _ k hk _ => .ite ?_ (.raise _ _)
  refine keeps_changeHeap fun c hle => c.update r (.putOwn key v) fun ho => ho.putOwn key ?_
  exact hv.mono (Nat.le_trans hk hle)

theorem keeps_putProperty (base : Value) (key : String) {v : Value} (hv : v.Below n)
    (strict : Bool) :
    (putProperty base key v strict).Keeps n Anything := by
  cases base with
  | object r => exact keeps_putOwn r key hv
  | undefined | null => exact .raise _ _
  | boolean b => exact .ite (.raise _ _) (.pure fun _ _ => trivial)
  | number x => exact .ite (.raise _ _) (.pure fun _ _ => trivial)
  | string s => exact .ite (.raise _ _) (.pure fun _ _ => trivial)

theorem keeps_hasProperty {v : Value} (hv : v.Below n) (key : String) :
    (hasProperty v key).Keeps n Anything := by
  cases v with
  | object r => exact (keeps_preparePrototype hv key).bind fun _ _ _ _ => keeps_look _
  | _ => exact .raise _ _

theorem keeps_tryDelete (v : Value) (key : String) : (tryDelete v key).Keeps n Anything := by
  cases v with
  | object r =>
    refine (keeps_look _).bind fun _ _ _ _ => ?_
    refine (keeps_changeHeap fun c _ => ?_).bind fun _ _ _ _ => .pure fun _ _ => trivial
    exact c.update r (.deleteOwn key) fun ho => ho.deleteOwn key
  | undefined | null => exact .raise _ _
  | _ => exact .pure fun _ _ => trivial

theorem keeps_deleteProperty (v : Value) (key : String) (strict : Bool) :
    (deleteProperty v key strict).Keeps n Anything :=
  (keeps_tryDelete v key).bind fun _ _ _ _ =>
    .ite ((keeps_display v).bind fun _ _ _ _ => .raise _ _) (.pure fun _ _ => trivial)

/-! ### Computations without calls -/

theorem keeps_toObject {v : Value} (hv : v.Below n) : (toObject v).Keeps n Value.Below := by
  unfold toObject
  split
  · exact .raise _ _
  · exact .raise _ _
  · exact keeps_new fun c hn => c.wrap (hv.mono hn)

theorem keeps_instanceOf (v : Value) {target : Value} (ht : target.Below n) :
    (instanceOf v target).Keeps n Anything := by
  refine (keeps_look _).bind fun _ k hk _ => .ite (.raise _ _) ?_
  cases v with
  | object r =>
    refine (keeps_getProperty (ht.mono hk) "prototype").bind fun p _ _ _ => ?_
    cases p with
    | object p => exact keeps_look _
    | _ => exact .raise _ _
  | _ => exact .pure fun _ _ => trivial

theorem keeps_receiver (this : Value) (method : String) :
    (Native.receiver this method).Keeps n Anything := by
  refine (keeps_look _).bind fun _ _ _ _ => .ite ?_ (.raise _ _)
  cases this <;> exact .pure fun _ _ => trivial

theorem keeps_listOf (v : Value) : (Native.listOf v).Keeps n ListBelow := by
  cases v with
  | undefined | null => exact .pure fun _ _ => nofun
  | object r =>
    refine (keeps_onHeap (Q := fun k cls => cls.Closed k) fun c _ => (c.object r).cls).bind
      fun cls _ _ hcls => ?_
    cases cls with
    | array elements =>
      exact .pure fun _ hle v hv => (AllBelow.mono hcls hle) v (Array.mem_toList_iff.mp hv)
    | arguments values length =>
      exact .pure fun _ hle v hv =>
        (AllBelow.mono hcls hle) v (Array.mem_toList_iff.mp (List.mem_of_mem_take hv))
    | _ => exact .raise _ _
  | _ => exact .raise _ _

theorem keeps_runFunctionToString (this : Value) :
    (Native.runFunctionToString this).Keeps n Value.Below := by
  refine (keeps_look _).bind fun text? _ _ _ => ?_
  cases text? with
  | some text => exact .pure fun _ _ => trivial
  | none => exact .raise _ _

theorem keeps_runArray {arguments : List Value} (ha : ListBelow n arguments) :
    (Native.runArray arguments).Keeps n Value.Below := by
  unfold Native.runArray
  split
  · split
    · exact keeps_new fun c _ => c.newArray (.replicate _ _)
    · exact .raise _ _
  · exact keeps_new fun c hn => c.newArray (.ofList (ha.mono hn))

theorem keeps_errorValue {e : RuntimeError} (he : e.Below n) :
    (errorValue e).Keeps n Value.Below := by
  cases e with
  | thrown v => exact .pure fun _ hk => Value.Below.mono he hk
  | raised kind message => exact keeps_new fun c _ => c.newError _ _

/-- A function that was found: its object is among the first `n` ones, and its code has no
object. -/
def FoundBelow (n : Nat) (f : Ref × Callable) : Prop :=
  f.1 < n ∧ (ObjectClass.function f.2).Closed n

/-- The function that a value is, if it is one. -/
def function? (v : Value) (h : Heap) : Option (Ref × Callable) :=
  match v with
  | .object r =>
    match (h.object r).cls with
    | .function f => some (r, f)
    | _ => none
  | _ => none

theorem keeps_callable {v : Value} (hv : v.Below n) (what : String) :
    (callable v what).Keeps n FoundBelow := by
  have hfound : (onHeap (function? v)).Keeps n fun k f? => ∀ f ∈ f?, FoundBelow k f := by
    refine keeps_onHeap fun {h} c hle f hf => ?_
    unfold function? at hf
    cases v with
    | object r =>
      have hcls := (c.object r).cls
      dsimp only at hf
      generalize (h.object r).cls = cls at hf hcls
      cases cls with
      | function g =>
        cases hf
        exact ⟨Nat.lt_of_lt_of_le hv hle, hcls⟩
      | _ => cases hf
    | _ => cases hf
  refine hfound.bind fun f? k hk hf => ?_
  cases f? with
  | some f => exact .pure fun _ hle => ⟨Nat.lt_of_lt_of_le (hf f rfl).1 hle, (hf f rfl).2.mono hle⟩
  | none => exact (keeps_display v).bind fun _ _ _ _ => .raise _ _

end Run

end ScriptEngine
