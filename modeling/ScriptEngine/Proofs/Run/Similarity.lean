import ScriptEngine.Run.Evaluate
import ScriptEngine.Proofs.Heap.Similarity
import ScriptEngine.Proofs.Run.Agreement

/-!
# Computations on similar machines

What scripts ask of a machine does not depend on the code of functions, so on machines with similar
heaps every operation that makes no calls yields the same result and leaves similar heaps behind.
What else relates the two machines is left open, as long as it survives the growth of the heaps and
what is written to the console.

## Main definitions

* `MachineRelation` : what may relate two machines.
* `MachineRelation.Same` : computations that agree on related machines.

## Main statements

* `MachineRelation.same_getProperty`, `MachineRelation.same_putProperty` : properties.
* `MachineRelation.relates_callable` : looking a function up.
-/

namespace ScriptEngine

/-! ### Looking a function up -/

theorem callable_of_function {r : Ref} {f : Callable} {m : Machine} (what : String)
    (hf : (m.heap.object r).cls = .function f) :
    Run.callable (.object r) what m = .ok (r, f) m := by
  unfold Run.callable
  change Exec.andThen (Run.onHeap _) _ m = _
  simp only [Exec.andThen, Run.onHeap, hf]
  rfl

theorem callable_of_not_callable {v : Value} {m : Machine} (what : String)
    (h : m.heap.isCallable v = false) :
    ∃ e, Run.callable v what m = .error e m := by
  unfold Run.callable
  change ∃ e, Exec.andThen (Run.onHeap _) _ m = _
  simp only [Exec.andThen, Run.onHeap]
  cases v with
  | object r =>
    have hcls (f : Callable) : (m.heap.object r).cls ≠ .function f := fun hf => by
      rw [Heap.isCallable, Object.isCallable, hf] at h
      cases h
    dsimp only
    generalize (m.heap.object r).cls = cls at hcls ⊢
    cases cls with
    | function f => exact absurd rfl (hcls f)
    | _ => exact ⟨_, rfl⟩
  | _ => exact ⟨_, rfl⟩

/-! ### Relations between machines -/

theorem FunctionCode.name_congr {c d : FunctionCode} (h : c = d) : c.info.name = d.info.name :=
  congrArg (·.info.name) h

/-- A relation between machines with similar heaps that survives the operations of the machine. -/
structure MachineRelation where
  /-- How the codes of functions at one place are related. -/
  code : FunctionCode → FunctionCode → Prop
  rel : Machine → Machine → Prop
  code_name : ∀ {c d}, code c d → c.info.name = d.info.name
  heap : ∀ {m n}, rel m n → Heap.Similar code m.heap n.heap
  depth : ∀ {m n}, rel m n → m.depth = n.depth
  limit : ∀ {m n}, rel m n → m.limit = n.limit
  withHeap : ∀ {m n h k}, rel m n → Heap.Advance code m.heap n.heap h k →
    rel { m with heap := h } { n with heap := k }
  withOutput : ∀ {m n}, rel m n → ∀ text,
    rel { m with output := m.output ++ text } { n with output := n.output ++ text }

namespace MachineRelation

variable (R : MachineRelation) {α β : Type}

/-- Computations that agree on related machines. -/
def Same (x y : Run α) : Prop :=
  Exec.Same R.rel x y

variable {R}

namespace Same

theorem bind {x y : Run α} {f g : α → Run β} (h : R.Same x y) (hf : ∀ a, R.Same (f a) (g a)) :
    R.Same (x >>= f) (y >>= g) :=
  Exec.Same.bind h hf

theorem pure (a : α) : R.Same (pure a) (pure a) :=
  Exec.Same.pure a

theorem raise (kind : ErrorKind) (message : String) :
    R.Same (Run.raise kind message : Run α) (Run.raise kind message) :=
  Exec.Same.raise kind message

theorem ite {c : Prop} [Decidable c] {x y x' y' : Run α} (h : R.Same x y) (h' : R.Same x' y') :
    R.Same (if c then x else x') (if c then y else y') :=
  Exec.Same.ite h h'

end Same

/-! ### The machine -/

theorem same_onHeap {f g : Heap → α} (h : ∀ {h k}, Heap.Similar R.code h k → f h = g k) :
    R.Same (Run.onHeap f) (Run.onHeap g) :=
  fun _ _ hmn => .ok ⟨h (R.heap hmn), hmn⟩

theorem same_changeHeap {f g : Heap → Heap}
    (h : ∀ {h k}, Heap.Similar R.code h k → Heap.Advance R.code h k (f h) (g k)) :
    R.Same (Run.changeHeap f) (Run.changeHeap g) :=
  fun _ _ hmn => .ok ⟨rfl, R.withHeap hmn (h (R.heap hmn))⟩

theorem same_new {f : Heap → Ref × Heap} (h : Heap.Adds R.code f) :
    R.Same (Run.new f) (Run.new f) := by
  intro m n hmn
  obtain ⟨href, hadvance⟩ := h (R.heap hmn)
  exact .ok ⟨congrArg Value.object href, R.withHeap hmn hadvance⟩

theorem same_display (v : Value) : R.Same (Run.display v) (Run.display v) :=
  same_onHeap fun s => s.display v

theorem same_write (text : String) : R.Same (Run.write text) (Run.write text) :=
  fun _ _ hmn => .ok ⟨rfl, R.withOutput hmn text⟩

/-- Inside of a call another relation may hold than outside. -/
theorem same_nested {Q : MachineRelation} {x y : Run α} (h : Q.Same x y)
    (henter : ∀ {m n}, R.rel m n →
      Q.rel { m with depth := m.depth + 1 } { n with depth := n.depth + 1 })
    (hleave : ∀ {m n}, Q.rel m n → R.rel (Run.leave m) (Run.leave n)) :
    R.Same (Run.nested x) (Run.nested y) := by
  intro m n hmn
  have hxy := h (henter hmn)
  unfold Run.nested
  rw [R.limit hmn] at hxy ⊢
  rw [R.depth hmn] at hxy ⊢
  split
  · generalize x _ = p at hxy ⊢
    generalize y _ = q at hxy ⊢
    cases hxy with
    | ok hQ => exact .ok ⟨hQ.1, hleave hQ.2⟩
    | error hE => exact .error (hleave hE)
    | exhausted => exact .exhausted
  · exact .error hmn

/-! ### Properties -/

theorem same_preparePrototype (r : Ref) (key : String) :
    R.Same (Run.preparePrototype r key) (Run.preparePrototype r key) :=
  .ite (same_changeHeap fun s => .ensurePrototype s r) (.pure ())

theorem same_getProperty (v : Value) (key : String) :
    R.Same (Run.getProperty v key) (Run.getProperty v key) := by
  cases v with
  | object r => exact (same_preparePrototype r key).bind fun _ => same_onHeap fun s => s.get r key
  | undefined | null => exact .raise _ _
  | string t =>
    have hget {h k : Heap} (s : Heap.Similar R.code h k) :
        Run.stringProperty h t key = Run.stringProperty k t key := by
      simp only [Run.stringProperty, s.get]
    exact same_onHeap hget
  | number x => exact same_onHeap fun s => s.get _ key
  | boolean b => exact same_onHeap fun s => s.get _ key

theorem same_putOwn (r : Ref) (key : String) (v : Value) :
    R.Same (Run.putOwn r key v) (Run.putOwn r key v) := by
  refine (same_onHeap fun s => (s.object r).acceptsOwn key v).bind fun accepted => .ite ?_ ?_
  · exact same_changeHeap fun s => .update s r (·.putOwn key v) (.putOwn key v)
  · exact .raise _ _

theorem same_putProperty (v : Value) (key : String) (value : Value) (strict : Bool) :
    R.Same (Run.putProperty v key value strict) (Run.putProperty v key value strict) := by
  cases v with
  | object r => exact same_putOwn r key value
  | undefined | null => exact .raise _ _
  | boolean b => exact .ite (.raise _ _) (.pure ())
  | number x => exact .ite (.raise _ _) (.pure ())
  | string t => exact .ite (.raise _ _) (.pure ())

theorem same_hasProperty (v : Value) (key : String) :
    R.Same (Run.hasProperty v key) (Run.hasProperty v key) := by
  cases v with
  | object r =>
    exact (same_preparePrototype r key).bind fun _ => same_onHeap fun s => s.hasProperty r key
  | _ => exact .raise _ _

theorem same_tryDelete (v : Value) (key : String) :
    R.Same (Run.tryDelete v key) (Run.tryDelete v key) := by
  cases v with
  | object r =>
    refine (same_onHeap fun s => (s.object r).isPermanent key).bind fun permanent => ?_
    refine (same_changeHeap fun s => ?_).bind fun _ => .pure _
    exact .update s r (·.deleteOwn key) (.deleteOwn key)
  | undefined | null => exact .raise _ _
  | _ => exact .pure _

theorem same_deleteProperty (v : Value) (key : String) (strict : Bool) :
    R.Same (Run.deleteProperty v key strict) (Run.deleteProperty v key strict) :=
  (same_tryDelete v key).bind fun _ =>
    .ite ((same_display v).bind fun _ => .raise _ _) (.pure _)

/-! ### Computations without calls -/

theorem same_toObject (v : Value) : R.Same (Run.toObject v) (Run.toObject v) := by
  unfold Run.toObject
  split
  · exact .raise _ _
  · exact .raise _ _
  · exact same_new (Heap.adds_wrap v)

theorem same_instanceOf (v target : Value) :
    R.Same (Run.instanceOf v target) (Run.instanceOf v target) := by
  refine (same_onHeap fun s => s.isCallable target).bind fun callable => .ite (.raise _ _) ?_
  cases v with
  | object r =>
    refine (same_getProperty target "prototype").bind fun p => ?_
    cases p with
    | object p => exact same_onHeap fun s => by rw [s.chain r]
    | _ => exact .raise _ _
  | _ => exact .pure _

theorem isArray_eq {h k : Heap} (s : Heap.Similar R.code h k) (v : Value) :
    Native.isArray h v = Native.isArray k v := by
  cases v with
  | object r =>
    have hobject := s.object r
    simp only [Native.isArray]
    generalize h.object r = o at hobject ⊢
    generalize k.object r = q at hobject ⊢
    cases hobject <;> rfl
  | _ => rfl

theorem same_receiver (this : Value) (method : String) :
    R.Same (Native.receiver this method) (Native.receiver this method) := by
  refine (same_onHeap fun s => isArray_eq s this).bind fun array => .ite ?_ (.raise _ _)
  cases this <;> exact .pure _

theorem same_listOf (v : Value) : R.Same (Native.listOf v) (Native.listOf v) := by
  cases v with
  | undefined | null => exact .pure _
  | object r =>
    unfold Native.listOf
    intro m n hmn
    have hobject := (R.heap hmn).object r
    change Ending.Agree _ _ (Exec.andThen (Run.onHeap _) _ m) (Exec.andThen (Run.onHeap _) _ n)
    simp only [Exec.andThen, Run.onHeap]
    generalize m.heap.object r = o at hobject ⊢
    generalize n.heap.object r = q at hobject ⊢
    cases hobject with
    | refl o =>
      cases o.cls with
      | array elements => exact Same.pure _ hmn
      | arguments values length => exact Same.pure _ hmn
      | _ => exact Same.raise _ _ hmn
    | function scope prototype properties h => exact Same.raise _ _ hmn
  | _ => exact .raise _ _

theorem functionText_eq {c d : FunctionCode} (h : R.code c d) (scope : Option RecordRef) :
    Native.functionText (.script c scope) = Native.functionText (.script d scope) := by
  simp only [Native.functionText, Callable.name, R.code_name h]

theorem same_runFunctionToString (this : Value) :
    R.Same (Native.runFunctionToString this) (Native.runFunctionToString this) := by
  refine (same_onHeap fun {h k} s => ?_).bind fun text? => ?_
  · cases this with
    | object r =>
      have hobject := s.object r
      dsimp only
      generalize h.object r = o at hobject ⊢
      generalize k.object r = q at hobject ⊢
      cases hobject with
      | refl o => rfl
      | function scope prototype properties hcode => simp only [functionText_eq hcode]
    | _ => rfl
  · cases text? with
    | some text => exact .pure _
    | none => exact .raise _ _

theorem classTag_eq {h k : Heap} (s : Heap.Similar R.code h k) (v : Value) :
    Native.classTag h v = Native.classTag k v := by
  cases v with
  | object r => exact (s.object r).className
  | _ => rfl

theorem same_runArray (arguments : List Value) :
    R.Same (Native.runArray arguments) (Native.runArray arguments) := by
  unfold Native.runArray
  split
  · split
    · exact same_new (Heap.adds_newArray _)
    · exact .raise _ _
  · exact same_new (Heap.adds_newArray _)

theorem same_errorValue (e : RuntimeError) : R.Same (Run.errorValue e) (Run.errorValue e) := by
  cases e with
  | thrown v => exact .pure v
  | raised kind message => exact same_new (Heap.adds_newError _ _)

/-! ### Functions -/

/-- Functions at one place: the same native one, or related codes with the same record. -/
inductive Callable.Similar (T : FunctionCode → FunctionCode → Prop) :
    Callable → Callable → Prop where
  | refl (f : Callable) : Callable.Similar T f f
  | script {c d : FunctionCode} (scope : Option RecordRef) (h : T c d) :
      Callable.Similar T (.script c scope) (.script d scope)

/-- Functions found at the same place of related machines. -/
structure Found (R : MachineRelation) (f g : Ref × Callable) (m n : Machine) : Prop where
  rel : R.rel m n
  ref : f.1 = g.1
  similar : Callable.Similar R.code f.2 g.2
  left : (m.heap.object f.1).cls = .function f.2
  right : (n.heap.object g.1).cls = .function g.2

/-- Looking a function up on related machines gives similar functions at the same place. -/
theorem relates_callable (v : Value) (what : String) :
    Exec.Relates R.rel R.rel R.Found (Run.callable v what) (Run.callable v what) := by
  have hraise : Exec.Relates R.rel R.rel R.Found
      (do
        let shown ← Run.display v
        Run.raise .typeError s!"{shown} is not {what}")
      (do
        let shown ← Run.display v
        Run.raise .typeError s!"{shown} is not {what}") :=
    Exec.Same.bindTo (same_display v) id fun _ => Exec.Relates.fail _ id
  unfold Run.callable
  intro m n hmn
  change Ending.Agree _ _ (Exec.andThen (Run.onHeap _) _ m) (Exec.andThen (Run.onHeap _) _ n)
  simp only [Exec.andThen, Run.onHeap]
  cases v with
  | object r =>
    have hobject := (R.heap hmn).object r
    generalize hm : m.heap.object r = o at hobject
    generalize hn : n.heap.object r = q at hobject
    dsimp only
    rw [hm, hn]
    cases hobject with
    | refl o =>
      cases ho : o.cls with
      | function f => exact .ok ⟨hmn, rfl, .refl f, by rw [hm, ho], by rw [hn, ho]⟩
      | _ => exact hraise hmn
    | function scope prototype properties h =>
      exact .ok ⟨hmn, rfl, .script scope h, by rw [hm], by rw [hn]⟩
  | _ => exact hraise hmn

end MachineRelation

end ScriptEngine
