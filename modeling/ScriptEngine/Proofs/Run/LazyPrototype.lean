import ScriptEngine.Proofs.Compile.WithObjects
import ScriptEngine.Proofs.Heap.History
import ScriptEngine.Proofs.Run.Similarity

/-!
# Prototypes made on use

A function of a script gets its `prototype` when it is first asked for.  Reading it, the operators
`in`, `instanceof` and `new` make it themselves, so they do not see whether it was made before.
`hasOwnProperty` and the lookup of a name in the object of a `with` statement look at the properties
as they are: they miss a `prototype` that was not made yet, and find it after any other use of it.

## Main definitions

* `Machine.withPrototype` : the machine after the `prototype` of a function was made.
* `Machine.MakesOnUse` : what a function without a `prototype` shows, and what it shows with one.

## Main statements

* `Machine.makes_on_use` : what the uses of a `prototype` that was not made yet see.
* `Machine.hasOwn_sees_prototype` : a use that is not the same before and after.
-/

namespace ScriptEngine

/-! ### Making the prototype -/

namespace Heap

variable {h : Heap} {f : Ref}

theorem isScript_of_lacksPrototype (hf : h.lacksPrototype f = true) :
    ∃ code scope, (h.object f).cls = .function (.script code scope) := by
  unfold lacksPrototype at hf
  dsimp only at hf
  split at hf
  · next code scope hcls => exact ⟨code, scope, hcls⟩
  · cases hf

theorem hasOwn_of_lacksPrototype (hf : h.lacksPrototype f = true) :
    (h.object f).hasOwn "prototype" = false := by
  obtain ⟨code, scope, hcls⟩ := isScript_of_lacksPrototype hf
  unfold lacksPrototype at hf
  simpa [hcls] using hf

theorem lt_size_of_lacksPrototype (hf : h.lacksPrototype f = true) : f < h.size := by
  obtain ⟨code, scope, hcls⟩ := isScript_of_lacksPrototype hf
  by_contra hout
  rw [object_of_size_le (Nat.not_lt.mp hout)] at hcls
  cases hcls

/-- The function gets a property that names the new object. -/
theorem object_ensurePrototype (hf : h.lacksPrototype f = true) :
    (h.ensurePrototype f).object f = (h.object f).defineOwn "prototype" (.object h.size) false := by
  have hlt := lt_size_of_lacksPrototype hf
  unfold ensurePrototype
  rw [if_pos hf]
  unfold make
  dsimp only
  rw [object_update, size_alloc, if_pos ⟨rfl, Nat.lt_succ_of_lt hlt⟩, object_alloc,
    if_neg (Nat.ne_of_lt hlt)]
  rfl

theorem hasOwn_ensurePrototype (hf : h.lacksPrototype f = true) :
    ((h.ensurePrototype f).object f).hasOwn "prototype" = true := by
  have hfound : ((h.object f).properties.define "prototype" (.object h.size) false).contains
      "prototype" := by
    rw [PropertyMap.contains_eq, PropertyMap.get?_define_self]
    rfl
  rw [object_ensurePrototype hf, Object.hasOwn]
  exact Bool.or_eq_true_iff.mpr (.inr hfound)

/-- What was made is not made again. -/
theorem ensurePrototype_ensurePrototype (hf : h.lacksPrototype f = true) :
    (h.ensurePrototype f).ensurePrototype f = h.ensurePrototype f := by
  have hmade : (h.ensurePrototype f).lacksPrototype f = false := by
    refine Bool.eq_false_iff.mpr fun hlacks => ?_
    have hnone := hasOwn_of_lacksPrototype hlacks
    rw [hasOwn_ensurePrototype hf] at hnone
    cases hnone
  rw [ensurePrototype, hmade]
  rfl

theorem chain_eq_cons (h : Heap) (r : Ref) : h.chain r = r :: (h.chain r).tail := by
  unfold chain chainWithin
  cases (h.object r).prototype <;> rfl

theorem get_ensurePrototype (hf : h.lacksPrototype f = true) :
    (h.ensurePrototype f).get f "prototype" = .object h.size := by
  obtain ⟨code, scope, hcls⟩ := isScript_of_lacksPrototype hf
  have hnames : ((h.ensurePrototype f).object f).cls.HasNamesOnly := by
    rw [object_ensurePrototype hf]
    change (h.object f).cls.HasNamesOnly
    rw [hcls]
    trivial
  have hown : ((h.ensurePrototype f).object f).getOwn? "prototype" = some (.object h.size) := by
    rw [Object.getOwn?_of_namesOnly hnames, object_ensurePrototype hf]
    change (((h.object f).properties.define _ _ _).get? _).map _ = _
    rw [PropertyMap.get?_define_self]
    rfl
  rw [get, chain_eq_cons, List.findSome?_cons, hown]
  rfl

theorem hasProperty_ensurePrototype (hf : h.lacksPrototype f = true) :
    (h.ensurePrototype f).hasProperty f "prototype" = true := by
  rw [hasProperty, chain_eq_cons, List.any_cons, hasOwn_ensurePrototype hf]
  rfl

/-- Without it a `prototype` can only be inherited. -/
theorem hasProperty_of_lacksPrototype (hf : h.lacksPrototype f = true) :
    h.hasProperty f "prototype" = (h.chain f).tail.any fun q =>
      (h.object q).hasOwn "prototype" := by
  rw [hasProperty, chain_eq_cons, List.any_cons, hasOwn_of_lacksPrototype hf]
  rfl

end Heap

/-- The machine after the `prototype` of a function was made. -/
def Machine.withPrototype (m : Machine) (f : Ref) : Machine :=
  { m with heap := m.heap.ensurePrototype f }

/-! ### Uses that make it -/

namespace Run

variable {m : Machine} {f : Ref}

/-- A computation does not tell whether the `prototype` of a function was made before it. -/
def Overlooks (m : Machine) (f : Ref) {α : Type} (x : Run α) : Prop :=
  x m = x (m.withPrototype f)

theorem andThen_ok {α β : Type} {x : Run α} {k : α → Run β} {a : α} {n n' : Machine}
    (h : x n = .ok a n') :
    (x >>= k) n = k a n' := by
  change Exec.andThen x k n = k a n'
  rw [Exec.andThen, h]

theorem ensure_makes (m : Machine) (f : Ref) :
    changeHeap (·.ensurePrototype f) m = .ok () (m.withPrototype f) :=
  rfl

theorem ensure_keeps (hf : m.heap.lacksPrototype f = true) :
    changeHeap (·.ensurePrototype f) (m.withPrototype f) = .ok () (m.withPrototype f) := by
  change Ending.ok () { m with heap := (m.heap.ensurePrototype f).ensurePrototype f } = _
  rw [Heap.ensurePrototype_ensurePrototype hf]
  rfl

theorem preparePrototype_eq (f : Ref) :
    preparePrototype f "prototype" = changeHeap (·.ensurePrototype f) :=
  if_pos (beq_self_eq_true _)

theorem getProperty_eq (f : Ref) : getProperty (.object f) "prototype" =
    changeHeap (·.ensurePrototype f) >>= fun _ => onHeap (·.get f "prototype") := by
  rw [← preparePrototype_eq]
  rfl

theorem hasProperty_eq (f : Ref) : hasProperty (.object f) "prototype" =
    changeHeap (·.ensurePrototype f) >>= fun _ => onHeap (·.hasProperty f "prototype") := by
  rw [← preparePrototype_eq]
  rfl

/-- What makes the `prototype` first overlooks whether it was there. -/
theorem Overlooks.ensure (hf : m.heap.lacksPrototype f = true) {α : Type} (k : Unit → Run α) :
    Overlooks m f (changeHeap (·.ensurePrototype f) >>= k) := by
  unfold Overlooks
  rw [andThen_ok (ensure_makes m f), andThen_ok (ensure_keeps hf)]

/-- A look at what does not change with the `prototype` may come first. -/
theorem Overlooks.after {α β : Type} {x : Run α} {k : α → Run β} {a : α} (hx : x m = .ok a m)
    (hx' : x (m.withPrototype f) = .ok a (m.withPrototype f)) (hk : Overlooks m f (k a)) :
    Overlooks m f (x >>= k) := by
  unfold Overlooks
  rw [andThen_ok hx, andThen_ok hx']
  exact hk

theorem Overlooks.bind {α β : Type} {x : Run α} (hx : Overlooks m f x) (k : α → Run β) :
    Overlooks m f (x >>= k) := by
  change Exec.andThen x k m = Exec.andThen x k (m.withPrototype f)
  rw [Exec.andThen, Exec.andThen, show x m = x (m.withPrototype f) from hx]

theorem overlooks_getProperty (hf : m.heap.lacksPrototype f = true) :
    Overlooks m f (getProperty (.object f) "prototype") := by
  rw [getProperty_eq]
  exact .ensure hf _

/-- The class of the function stays. -/
theorem cls_withPrototype (hf : m.heap.lacksPrototype f = true) :
    ((m.withPrototype f).heap.object f).cls = (m.heap.object f).cls := by
  change ((m.heap.ensurePrototype f).object f).cls = _
  rw [Heap.object_ensurePrototype hf]
  rfl

theorem overlooks_construct (hf : m.heap.lacksPrototype f = true) (call : Caller)
    (arguments : List Value) :
    Overlooks m f (construct call (.object f) arguments) := by
  obtain ⟨code, scope, hcls⟩ := Heap.isScript_of_lacksPrototype hf
  exact .after (callable_of_function _ hcls)
    (callable_of_function _ ((cls_withPrototype hf).trans hcls))
    (.ensure hf _)

/-- A script's function may stand at the right of `instanceof`. -/
theorem isCallable_of_cls {n : Machine} {c : Callable}
    (hcls : (n.heap.object f).cls = .function c) :
    onHeap (·.isCallable (.object f)) n = .ok true n := by
  refine congrArg (Ending.ok · n) ?_
  change (n.heap.object f).isCallable = true
  unfold Object.isCallable
  rw [hcls]

theorem overlooks_instanceOf (hf : m.heap.lacksPrototype f = true) (r : Ref) :
    Overlooks m f (instanceOf (.object r) (.object f)) := by
  obtain ⟨code, scope, hcls⟩ := Heap.isScript_of_lacksPrototype hf
  refine .after (isCallable_of_cls hcls) (isCallable_of_cls ((cls_withPrototype hf).trans hcls)) ?_
  simp only [Bool.not_true, Bool.false_eq_true, if_false]
  exact (overlooks_getProperty hf).bind _

/-- A value that is no object is no instance, and then the `prototype` is not made. -/
theorem instanceOf_primitive {n : Machine} {c : Callable}
    (hcls : (n.heap.object f).cls = .function c) {v : Value} (hv : v.isObject = false) :
    instanceOf v (.object f) n = .ok false n := by
  unfold instanceOf
  rw [andThen_ok (isCallable_of_cls hcls)]
  cases v with
  | object r => cases hv
  | _ => rfl

end Run

/-! ### Uses that do not make it -/

theorem Act.record_eq (number : Nat) (frame : Frame) (n : Machine) : Act.record number ⟨frame, n⟩ =
    match frame.records[number]?.join with
    | some r => .ok r ⟨frame, n⟩
    | none =>
      .error (.raised .referenceError s!"closure level {number} is not available") ⟨frame, n⟩ := by
  unfold Act.record
  change Exec.andThen (Act.onFrame _) _ _ = _
  unfold Exec.andThen Act.onFrame
  dsimp only
  cases frame.records[number]?.join with
  | some r => rfl
  | none => rfl

theorem Act.readField_eq (address : FieldAddress) (frame : Frame) (n : Machine) :
    Act.readField address ⟨frame, n⟩ =
    match frame.records[address.record]?.join with
    | some r => .ok (n.records.get r address.index) ⟨frame, n⟩
    | none =>
      .error (.raised .referenceError s!"closure level {address.record} is not available")
        ⟨frame, n⟩ := by
  unfold Act.readField
  change Exec.andThen (Act.record address.record) _ _ = _
  unfold Exec.andThen
  rw [Act.record_eq]
  cases frame.records[address.record]?.join with
  | some r => rfl
  | none => rfl

/-- The variable of a `with` statement is a slot or a field: its value does not depend on the
heap. -/
def Storage.IsHidden : Storage → Prop
  | .slot .. | .field _ => True
  | .global _ | .parameter .. => False

theorem Storage.IsHidden.read {storage : Storage} (h : storage.IsHidden) {frame : Frame}
    {m : Machine} {v : Value} (hread : storage.read false ⟨frame, m⟩ = .ok v ⟨frame, m⟩)
    (heap : Heap) :
    storage.read false ⟨frame, { m with heap }⟩ = .ok v ⟨frame, { m with heap }⟩ := by
  cases storage with
  | global | parameter => exact h.elim
  | slot ρ index =>
    cases hread
    rfl
  | field address =>
    change Act.readField address _ = _ at hread ⊢
    rw [Act.readField_eq] at hread ⊢
    cases hjoin : frame.records[address.record]?.join with
    | some r =>
      rw [hjoin] at hread
      cases hread
      rfl
    | none =>
      rw [hjoin] at hread
      cases hread

theorem Run.hasOwnProperty_eq (call : Caller) (f : Ref) (key : String) (n : Machine) :
    Native.runHasOwnProperty call (.object f) [.string key] n =
      .ok (.boolean ((n.heap.object f).hasOwn key)) n :=
  rfl

namespace Machine

variable {m : Machine} {f : Ref}

/-- With the `prototype` a name is found in the function, -/
theorem holds_withPrototype (hf : m.heap.lacksPrototype f = true) {b : Binding}
    (hb : b.storage.IsHidden) {frame : Frame}
    (hread : b.storage.read false ⟨frame, m⟩ = .ok (.object f) ⟨frame, m⟩) :
    b.Holds "prototype" ⟨frame, m.withPrototype f⟩ f :=
  ⟨hb.read hread _, Heap.hasProperty_ensurePrototype hf⟩

/-- and without it only if the function inherits one. -/
theorem resolve_of_lacksPrototype (hf : m.heap.lacksPrototype f = true) {a : Access} {b : Binding}
    {outer : List Binding} (hname : a.name = "prototype") (hscopes : a.scopes = b :: outer)
    {frame : Frame} (hread : b.storage.read false ⟨frame, m⟩ = .ok (.object f) ⟨frame, m⟩) :
    a.resolve ⟨frame, m⟩ =
      if (m.heap.chain f).tail.any fun q => (m.heap.object q).hasOwn "prototype" then
        .ok (.property (.object f) "prototype") ⟨frame, m⟩
      else { a with scopes := outer }.resolve ⟨frame, m⟩ := by
  have hhas := Heap.hasProperty_of_lacksPrototype hf
  rw [← hhas]
  obtain ⟨name, scopes, binding⟩ := a
  subst hname hscopes
  cases hfound : m.heap.hasProperty f "prototype" with
  | true =>
    rw [if_pos rfl]
    exact Access.resolve_innermost ⟨[], b, outer, rfl, nofun, hread, hfound⟩
  | false =>
    have hlacks : b.Lacks "prototype" ⟨frame, m⟩ :=
      ⟨_, hread, fun r hr => by cases hr; exact hfound⟩
    have hskip := Access.firstResult_lacks outer (List.forall_mem_singleton.mpr hlacks)
    rw [if_neg Bool.false_ne_true]
    unfold Access.resolve
    change Exec.andThen _ _ _ = Exec.andThen _ _ _
    unfold Exec.andThen
    rw [← hskip]
    rfl

/-- What scripts see of the `prototype` of a function. -/
structure MakesOnUse (call : Caller) (m : Machine) (f : Ref) : Prop where
  /-- Reading it, `in`, `new` and `instanceof` do not tell whether it was made before. -/
  read : Run.getProperty (.object f) "prototype" m = .ok (.object m.heap.size) (m.withPrototype f)
  read_made : Run.getProperty (.object f) "prototype" (m.withPrototype f) =
    .ok (.object m.heap.size) (m.withPrototype f)
  isIn : Run.hasProperty (.object f) "prototype" m = .ok true (m.withPrototype f)
  isIn_made : Run.hasProperty (.object f) "prototype" (m.withPrototype f) =
    .ok true (m.withPrototype f)
  construct : ∀ arguments, Run.Overlooks m f (Run.construct call (.object f) arguments)
  instanceOf : ∀ r, Run.Overlooks m f (Run.instanceOf (.object r) (.object f))
  instanceOf_primitive : ∀ v, v.isObject = false → Run.instanceOf v (.object f) m = .ok false m ∧
    Run.instanceOf v (.object f) (m.withPrototype f) = .ok false (m.withPrototype f)
  /-- `hasOwnProperty` and the lookup of a name do tell. -/
  hasOwn : Native.runHasOwnProperty call (.object f) [.string "prototype"] m =
    .ok (.boolean false) m
  hasOwn_made : Native.runHasOwnProperty call (.object f) [.string "prototype"]
    (m.withPrototype f) = .ok (.boolean true) (m.withPrototype f)
  named : ∀ (a : Access) (b : Binding) (outer : List Binding) (frame : Frame),
    a.name = "prototype" → a.scopes = b :: outer → b.storage.IsHidden →
    b.storage.read false ⟨frame, m⟩ = .ok (.object f) ⟨frame, m⟩ →
    a.resolve ⟨frame, m.withPrototype f⟩ =
        .ok (.property (.object f) "prototype") ⟨frame, m.withPrototype f⟩ ∧
      a.resolve ⟨frame, m⟩ =
        if (m.heap.chain f).tail.any fun q => (m.heap.object q).hasOwn "prototype" then
          .ok (.property (.object f) "prototype") ⟨frame, m⟩
        else { a with scopes := outer }.resolve ⟨frame, m⟩

/-- A function of a script whose `prototype` was not made yet: reading it, `in`, `new` and
`instanceof` make it, and so see the same as after it was made; `hasOwnProperty` and the lookup of a
name inside `with` look for one that is there. -/
theorem makes_on_use (call : Caller) (hf : m.heap.lacksPrototype f = true) :
    m.MakesOnUse call f where
  read := by
    rw [Run.getProperty_eq, Run.andThen_ok (Run.ensure_makes m f)]
    exact congrArg (Ending.ok · _) (Heap.get_ensurePrototype hf)
  read_made := by
    rw [Run.getProperty_eq, Run.andThen_ok (Run.ensure_keeps hf)]
    exact congrArg (Ending.ok · _) (Heap.get_ensurePrototype hf)
  isIn := by
    rw [Run.hasProperty_eq, Run.andThen_ok (Run.ensure_makes m f)]
    exact congrArg (Ending.ok · _) (Heap.hasProperty_ensurePrototype hf)
  isIn_made := by
    rw [Run.hasProperty_eq, Run.andThen_ok (Run.ensure_keeps hf)]
    exact congrArg (Ending.ok · _) (Heap.hasProperty_ensurePrototype hf)
  construct := Run.overlooks_construct hf call
  instanceOf := Run.overlooks_instanceOf hf
  instanceOf_primitive v hv := by
    obtain ⟨code, scope, hcls⟩ := Heap.isScript_of_lacksPrototype hf
    exact ⟨Run.instanceOf_primitive hcls hv,
      Run.instanceOf_primitive ((Run.cls_withPrototype hf).trans hcls) hv⟩
  hasOwn := by
    rw [Run.hasOwnProperty_eq, Heap.hasOwn_of_lacksPrototype hf]
  hasOwn_made := by
    rw [Run.hasOwnProperty_eq]
    exact congrArg (fun b => Ending.ok (Value.boolean b) _) (Heap.hasOwn_ensurePrototype hf)
  named a b outer frame hname hscopes hb hread := by
    refine ⟨?_, resolve_of_lacksPrototype hf hname hscopes hread⟩
    have hholds := holds_withPrototype hf hb hread
    rw [← hname] at hholds ⊢
    exact Access.resolve_innermost ⟨[], b, outer, hscopes, nofun, hholds⟩

/-- A new function alone. -/
theorem makes_on_use_new :
    let o : Object := .plain (.function (.script (.mk default (.block []) (.block [])) none)) none
    let m : Machine := { heap := ⟨#[o]⟩, records := .empty, depth := 0, limit := 0, output := "" }
    m.heap.lacksPrototype 0 = true ∧ m.MakesOnUse (fun _ _ _ _ => .exhausted) 0 := by
  intro o m
  have hf : m.heap.lacksPrototype 0 = true := by decide
  exact ⟨hf, makes_on_use _ hf⟩

/-- The answer of `hasOwnProperty` depends on whether the `prototype` was used before. -/
theorem hasOwn_sees_prototype :
    let o : Object := .plain (.function (.script (.mk default (.block []) (.block [])) none)) none
    let m : Machine := { heap := ⟨#[o]⟩, records := .empty, depth := 0, limit := 0, output := "" }
    let answer : Run Value :=
      Native.runHasOwnProperty (fun _ _ _ _ => .exhausted) (.object 0) [.string "prototype"]
    m.heap.lacksPrototype 0 = true ∧ answer m = .ok (.boolean false) m ∧
      answer (m.withPrototype 0) = .ok (.boolean true) (m.withPrototype 0) :=
  ⟨by decide, rfl, rfl⟩

end Machine

end ScriptEngine
