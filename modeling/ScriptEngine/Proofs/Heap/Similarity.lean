import ScriptEngine.Heap.Display
import ScriptEngine.Heap.Intrinsic
import ScriptEngine.Run.Builtin

/-!
# Similar heaps

Two heaps are similar if they differ only in the code of functions, the codes at one place being
related.  No operation of the heap looks into code, so each one answers the same on similar heaps
and leaves similar heaps behind.  An operation that runs no script also leaves the classes and the
prototypes of objects alone and makes no function of a script: the heap grows.

## Main definitions

* `Object.Similar`, `Heap.Similar` : similarity for a relation between codes.
* `ObjectClass.shape` : what of a class never changes.
* `Heap.KeepsLinks` : all objects of a heap are in another one, with the same prototypes.
* `Heap.Grows` : one heap comes from another one without new functions of scripts.
* `Heap.Advance` : a change that keeps similar heaps similar and lets them grow.

## Main statements

* `Heap.Similar.get`, `Heap.Similar.hasProperty`, `Heap.Similar.enumerate`, `Heap.Similar.display` :
  the answers of similar heaps.
* `Heap.Advance.update`, `Heap.Advance.make`, `Heap.Advance.ensurePrototype` : the changes.
-/

namespace ScriptEngine

variable {T : FunctionCode → FunctionCode → Prop}

/-! ### Objects -/

/-- Two objects are the same, or the same but for the codes of a function. -/
inductive Object.Similar (T : FunctionCode → FunctionCode → Prop) : Object → Object → Prop where
  | refl (o : Object) : Object.Similar T o o
  | function {c d : FunctionCode} (scope : Option RecordRef) (prototype : Option Ref)
      (properties : PropertyMap) (h : T c d) :
      Object.Similar T ⟨.function (.script c scope), prototype, properties⟩
        ⟨.function (.script d scope), prototype, properties⟩

namespace Object.Similar

variable {o o' : Object}

theorem mono {T' : FunctionCode → FunctionCode → Prop} (h : Object.Similar T o o')
    (hT : ∀ {c d}, T c d → T' c d) :
    Object.Similar T' o o' := by
  cases h with
  | refl o => exact .refl o
  | function scope prototype properties h => exact .function scope prototype properties (hT h)

theorem prototype (h : Object.Similar T o o') : o.prototype = o'.prototype := by
  cases h <;> rfl

theorem getOwn? (h : Object.Similar T o o') (key : String) : o.getOwn? key = o'.getOwn? key := by
  cases h <;> rfl

theorem hasOwn (h : Object.Similar T o o') (key : String) : o.hasOwn key = o'.hasOwn key := by
  cases h <;> rfl

theorem acceptsOwn (h : Object.Similar T o o') (key : String) (v : Value) :
    o.acceptsOwn key v = o'.acceptsOwn key v := by
  cases h <;> rfl

theorem isPermanent (h : Object.Similar T o o') (key : String) :
    o.isPermanent key = o'.isPermanent key := by
  cases h <;> rfl

theorem ownKeys (h : Object.Similar T o o') (b : Bool) : o.ownKeys b = o'.ownKeys b := by
  cases h <;> rfl

theorem isOwnEnumerable (h : Object.Similar T o o') : o.isOwnEnumerable = o'.isOwnEnumerable := by
  cases h <;> rfl

theorem isCallable (h : Object.Similar T o o') : o.isCallable = o'.isCallable := by
  cases h <;> rfl

theorem parameter (h : Object.Similar T o o') (index : Nat) :
    o.parameter index = o'.parameter index := by
  cases h <;> rfl

theorem elements (h : Object.Similar T o o') : Native.elements o = Native.elements o' := by
  cases h <;> rfl

theorem className (h : Object.Similar T o o') : o.cls.name = o'.cls.name := by
  cases h <;> rfl

theorem putOwn (h : Object.Similar T o o') (key : String) (v : Value) :
    Object.Similar T (o.putOwn key v) (o'.putOwn key v) := by
  cases h with
  | refl o => exact .refl _
  | function scope prototype properties h => exact .function scope prototype _ h

theorem defineOwn (h : Object.Similar T o o') (key : String) (v : Value) (enumerable : Bool) :
    Object.Similar T (o.defineOwn key v enumerable) (o'.defineOwn key v enumerable) := by
  cases h with
  | refl o => exact .refl _
  | function scope prototype properties h => exact .function scope prototype _ h

theorem deleteOwn (h : Object.Similar T o o') (key : String) :
    Object.Similar T (o.deleteOwn key) (o'.deleteOwn key) := by
  cases h with
  | refl o => exact .refl _
  | function scope prototype properties h => exact .function scope prototype _ h

theorem setParameter (h : Object.Similar T o o') (index : Nat) (v : Value) :
    Object.Similar T (o.setParameter index v) (o'.setParameter index v) := by
  cases h with
  | refl o => exact .refl _
  | function scope prototype properties h => exact .function scope prototype _ h

theorem changeElements (h : Object.Similar T o o') (f : Array Value → Array Value) :
    Object.Similar T (Native.changeElements f o) (Native.changeElements f o') := by
  cases h with
  | refl o => exact .refl _
  | function scope prototype properties h => exact .function scope prototype _ h

end Object.Similar

/-! ### Shapes of classes -/

/-- What of the class of an object never changes: the function of a script, and being an arguments
object. -/
inductive ClassShape where
  | script (code : FunctionCode) (scope : Option RecordRef)
  | arguments
  | other

/-- The shape of a class. -/
def ObjectClass.shape : ObjectClass → ClassShape
  | .function (.script code scope) => .script code scope
  | .arguments .. => .arguments
  | _ => .other

/-- A change of objects that keeps the shapes of their classes and their prototypes. -/
def KeepsShape (f : Object → Object) : Prop :=
  ∀ o, (f o).cls.shape = o.cls.shape ∧ (f o).prototype = o.prototype

namespace KeepsShape

theorem putOwn (key : String) (v : Value) : KeepsShape (·.putOwn key v) := by
  rintro ⟨cls, prototype, properties⟩
  cases cls <;> simp only [Object.putOwn] <;> repeat' split
  all_goals exact ⟨rfl, rfl⟩

theorem defineOwn (key : String) (v : Value) (enumerable : Bool) :
    KeepsShape (·.defineOwn key v enumerable) :=
  fun _ => ⟨rfl, rfl⟩

theorem deleteOwn (key : String) : KeepsShape (·.deleteOwn key) := by
  rintro ⟨cls, prototype, properties⟩
  cases cls <;> simp only [Object.deleteOwn] <;> repeat' split
  all_goals exact ⟨rfl, rfl⟩

theorem setParameter (index : Nat) (v : Value) : KeepsShape (·.setParameter index v) := by
  rintro ⟨cls, prototype, properties⟩
  cases cls <;> exact ⟨rfl, rfl⟩

theorem changeElements (f : Array Value → Array Value) : KeepsShape (Native.changeElements f) := by
  rintro ⟨cls, prototype, properties⟩
  cases cls <;> exact ⟨rfl, rfl⟩

end KeepsShape

/-! ### Heaps -/

namespace Heap

theorem object_alloc (h : Heap) (o : Object) (r : Ref) :
    (h.alloc o).2.object r = if r = h.size then o else h.object r := by
  simp only [object, alloc, size, Array.getElem?_push]
  by_cases hr : r = h.objects.size <;> simp [hr]

theorem size_alloc (h : Heap) (o : Object) : (h.alloc o).2.size = h.size + 1 := by
  simp [alloc, size]

theorem object_update (h : Heap) (r q : Ref) (f : Object → Object) :
    (h.update r f).object q =
      if r = q ∧ q < h.size then f (h.object q) else h.object q := by
  simp only [object, update, size, Array.getElem?_modify]
  by_cases hr : r = q
  · by_cases hq : q < h.objects.size
    · simp [hr, hq]
    · simp [hr, hq]
  · simp [hr]

theorem size_update (h : Heap) (r : Ref) (f : Object → Object) : (h.update r f).size = h.size := by
  simp [update, size]

/-- Two heaps with similar objects at the same places. -/
structure Similar (T : FunctionCode → FunctionCode → Prop) (h k : Heap) : Prop where
  size : h.size = k.size
  object : ∀ r, Object.Similar T (h.object r) (k.object r)

namespace Similar

variable {h k : Heap}

theorem refl (h : Heap) : Similar T h h where
  size := rfl
  object := fun _ => .refl _

theorem mono {T' : FunctionCode → FunctionCode → Prop} (s : Similar T h k)
    (hT : ∀ {c d}, T c d → T' c d) :
    Similar T' h k :=
  ⟨s.size, fun r => (s.object r).mono hT⟩

/-- Heaps with the same codes at the same places are the same. -/
theorem eq (s : Similar Eq h k) : h = k := by
  have hobjects : h.objects = k.objects := by
    refine Array.ext s.size fun r hr hr' => ?_
    have hsame := s.object r
    simp only [Heap.object, Array.getElem?_eq_getElem hr, Array.getElem?_eq_getElem hr',
      Option.getD_some] at hsame
    generalize h.objects[r] = o at hsame ⊢
    generalize k.objects[r] = q at hsame ⊢
    cases hsame with
    | refl => rfl
    | function scope prototype properties hcode => rw [hcode]
  cases h
  cases k
  cases hobjects
  rfl

theorem chainWithin (s : Similar T h k) (fuel : Nat) (r : Ref) :
    h.chainWithin fuel r = k.chainWithin fuel r := by
  induction fuel generalizing r with
  | zero => rfl
  | succ fuel ih => simp only [Heap.chainWithin, (s.object r).prototype, ih]

theorem chain (s : Similar T h k) (r : Ref) : h.chain r = k.chain r := by
  rw [Heap.chain, Heap.chain, s.size, s.chainWithin]

theorem get (s : Similar T h k) (r : Ref) (key : String) : h.get r key = k.get r key := by
  simp only [Heap.get, s.chain r, fun q => (s.object q).getOwn? key]

theorem hasProperty (s : Similar T h k) (r : Ref) (key : String) :
    h.hasProperty r key = k.hasProperty r key := by
  simp only [Heap.hasProperty, s.chain r, fun q => (s.object q).hasOwn key]

theorem enumerateFrom (s : Similar T h k) (seen : List String) (l : List Ref) :
    h.enumerateFrom seen l = k.enumerateFrom seen l := by
  induction l generalizing seen with
  | nil => rfl
  | cons r rest ih =>
    simp only [Heap.enumerateFrom, (s.object r).ownKeys, (s.object r).isOwnEnumerable, ih]

theorem enumerate (s : Similar T h k) (r : Ref) : h.enumerate r = k.enumerate r := by
  simp only [Heap.enumerate, s.chain r, s.enumerateFrom]

theorem isCallable (s : Similar T h k) (v : Value) : h.isCallable v = k.isCallable v := by
  cases v with
  | object r => exact (s.object r).isCallable
  | _ => rfl

theorem typeName (s : Similar T h k) (v : Value) : h.typeName v = k.typeName v := by
  cases v with
  | object r => simp only [Heap.typeName, (s.object r).isCallable]
  | _ => rfl

theorem parameter (s : Similar T h k) (v : Value) (index : Nat) :
    h.parameter v index = k.parameter v index := by
  cases v with
  | object r => exact (s.object r).parameter index
  | _ => rfl

theorem displayWithin (s : Similar T h k) (fuel : Nat) (v : Value) :
    h.displayWithin fuel v = k.displayWithin fuel v := by
  induction fuel generalizing v with
  | zero => rfl
  | succ fuel ih =>
    cases v with
    | object r =>
      have hget := s.get r
      have hobject := s.object r
      simp only [Heap.displayWithin, hget, funext ih]
      generalize h.object r = o at hobject ⊢
      generalize k.object r = q at hobject ⊢
      cases hobject <;> rfl
    | _ => rfl

theorem display (s : Similar T h k) (v : Value) : h.display v = k.display v := by
  simp only [Heap.display, s.size, s.displayWithin]

theorem alloc (s : Similar T h k) {o o' : Object} (ho : Object.Similar T o o') :
    Similar T (h.alloc o).2 (k.alloc o').2 where
  size := by rw [size_alloc, size_alloc, s.size]
  object := by
    intro r
    rw [object_alloc, object_alloc, ← s.size]
    split
    · exact ho
    · exact s.object r

theorem update (s : Similar T h k) (r : Ref) {f : Object → Object}
    (hf : ∀ {o o'}, Object.Similar T o o' → Object.Similar T (f o) (f o')) :
    Similar T (h.update r f) (k.update r f) where
  size := by rw [size_update, size_update, s.size]
  object := by
    intro q
    rw [object_update, object_update, ← s.size]
    split
    · exact hf (s.object q)
    · exact s.object q

theorem lacksPrototype (s : Similar T h k) (r : Ref) : h.lacksPrototype r = k.lacksPrototype r := by
  have hobject := s.object r
  simp only [Heap.lacksPrototype]
  generalize h.object r = o at hobject ⊢
  generalize k.object r = q at hobject ⊢
  cases hobject <;> rfl

end Similar

/-! ### Growth -/

/-- All objects of a heap are in another one, where they have the same prototypes. -/
structure KeepsLinks (h k : Heap) : Prop where
  size_le : h.size ≤ k.size
  prototype : ∀ r, r < h.size → (k.object r).prototype = (h.object r).prototype

namespace KeepsLinks

variable {h k l : Heap}

theorem refl (h : Heap) : KeepsLinks h h where
  size_le := Nat.le_refl _
  prototype := fun _ _ => rfl

theorem trans (hk : KeepsLinks h k) (kl : KeepsLinks k l) : KeepsLinks h l where
  size_le := Nat.le_trans hk.size_le kl.size_le
  prototype := fun r hr =>
    (kl.prototype r (Nat.lt_of_lt_of_le hr hk.size_le)).trans (hk.prototype r hr)

theorem alloc (h : Heap) (o : Object) : KeepsLinks h (h.alloc o).2 where
  size_le := by
    rw [size_alloc]
    exact Nat.le_succ _
  prototype := fun r hr => by rw [object_alloc, if_neg (Nat.ne_of_lt hr)]

theorem update (h : Heap) (r : Ref) {f : Object → Object}
    (hf : ∀ o, (f o).prototype = o.prototype) :
    KeepsLinks h (h.update r f) where
  size_le := Nat.le_of_eq (size_update h r f).symm
  prototype := fun q _ => by
    rw [object_update]
    split
    · exact hf _
    · rfl

end KeepsLinks

/-- The objects of a heap keep the shapes of their classes and their prototypes in another one,
whose further objects are no functions of scripts. -/
structure Grows (h k : Heap) : Prop where
  links : KeepsLinks h k
  shape : ∀ r, r < h.size → (k.object r).cls.shape = (h.object r).cls.shape
  fresh : ∀ r, h.size ≤ r → ∀ code scope, (k.object r).cls.shape ≠ .script code scope

theorem object_of_size_le {h : Heap} {r : Ref} (hr : h.size ≤ r) : h.object r = default := by
  have hnone : h.objects[r]? = none := Array.getElem?_eq_none hr
  simp only [object, hnone, Option.getD_none]

theorem shape_object_of_size_le {h : Heap} {r : Ref} (hr : h.size ≤ r) :
    (h.object r).cls.shape = .other := by
  rw [object_of_size_le hr]
  rfl

namespace Grows

variable {h k l : Heap}

theorem refl (h : Heap) : Grows h h where
  links := .refl h
  shape := fun _ _ => rfl
  fresh := fun r hr code scope => by
    rw [shape_object_of_size_le hr]
    exact ClassShape.noConfusion

theorem trans (hk : Grows h k) (kl : Grows k l) : Grows h l where
  links := hk.links.trans kl.links
  shape := fun r hr =>
    (kl.shape r (Nat.lt_of_lt_of_le hr hk.links.size_le)).trans (hk.shape r hr)
  fresh := fun r hr code scope => by
    rcases Nat.lt_or_ge r k.size with hlt | hge
    · rw [kl.shape r hlt]
      exact hk.fresh r hr code scope
    · exact kl.fresh r hge code scope

theorem alloc (h : Heap) {o : Object} (ho : ∀ code scope, o.cls.shape ≠ .script code scope) :
    Grows h (h.alloc o).2 where
  links := .alloc h o
  shape := fun r hr => by rw [object_alloc, if_neg (Nat.ne_of_lt hr)]
  fresh := fun r hr code scope => by
    rw [object_alloc]
    split
    · exact ho code scope
    · rw [shape_object_of_size_le hr]
      exact ClassShape.noConfusion

theorem update (h : Heap) (r : Ref) {f : Object → Object} (hf : KeepsShape f) :
    Grows h (h.update r f) := by
  have hshape (q : Ref) : ((h.update r f).object q).cls.shape = (h.object q).cls.shape := by
    rw [object_update]
    split
    · exact (hf _).1
    · rfl
  refine ⟨.update h r fun o => (hf o).2, fun q _ => hshape q, fun q hq code scope => ?_⟩
  rw [hshape, shape_object_of_size_le hq]
  exact ClassShape.noConfusion

end Grows

/-! ### Changes -/

/-- A change of two heaps that leaves them similar and lets both grow. -/
structure Advance (T : FunctionCode → FunctionCode → Prop) (h k h' k' : Heap) : Prop where
  similar : Similar T h' k'
  left : Grows h h'
  right : Grows k k'

namespace Advance

variable {h k h' k' h'' k'' : Heap}

theorem refl (s : Similar T h k) : Advance T h k h k :=
  ⟨s, .refl h, .refl k⟩

theorem trans (a : Advance T h k h' k') (b : Advance T h' k' h'' k'') : Advance T h k h'' k'' :=
  ⟨b.similar, a.left.trans b.left, a.right.trans b.right⟩

theorem update (s : Similar T h k) (r : Ref) {f : Object → Object}
    (hf : ∀ {o o'}, Object.Similar T o o' → Object.Similar T (f o) (f o')) (hs : KeepsShape f) :
    Advance T h k (h.update r f) (k.update r f) :=
  ⟨s.update r hf, .update h r hs, .update k r hs⟩

theorem alloc (s : Similar T h k) {o : Object}
    (ho : ∀ code scope, o.cls.shape ≠ .script code scope) :
    Advance T h k (h.alloc o).2 (k.alloc o).2 :=
  ⟨s.alloc (.refl o), .alloc h ho, .alloc k ho⟩

theorem cls_foldl_defineOwn (properties : List (String × Value)) (o : Object) :
    (properties.foldl (fun o p => o.defineOwn p.1 p.2 false) o).cls = o.cls := by
  induction properties generalizing o with
  | nil => rfl
  | cons p rest ih => exact ih _

/-- New objects other than functions of scripts. -/
theorem make (s : Similar T h k) {cls : ObjectClass} (parent : Intrinsic)
    (properties : List (String × Value)) (hcls : ∀ code scope, cls.shape ≠ .script code scope) :
    Advance T h k (h.make cls parent properties).2 (k.make cls parent properties).2 := by
  refine alloc s fun code scope => ?_
  rw [cls_foldl_defineOwn]
  exact hcls code scope

theorem setParameter (s : Similar T h k) (arguments : Value) (index : Nat) (v : Value) :
    Advance T h k (h.setParameter arguments index v) (k.setParameter arguments index v) := by
  cases arguments with
  | object r => exact .update s r (·.setParameter index v) (.setParameter index v)
  | _ => exact .refl s

theorem ensurePrototype (s : Similar T h k) (r : Ref) :
    Advance T h k (h.ensurePrototype r) (k.ensurePrototype r) := by
  unfold Heap.ensurePrototype
  rw [s.lacksPrototype r]
  split
  · have ha : Advance T h k (h.make .ordinary .objectPrototype [("constructor", .object r)]).2
        (k.make .ordinary .objectPrototype [("constructor", .object r)]).2 :=
      .make s _ _ fun _ _ => ClassShape.noConfusion
    have hp : (h.make .ordinary .objectPrototype [("constructor", .object r)]).1 =
        (k.make .ordinary .objectPrototype [("constructor", .object r)]).1 := s.size
    refine ha.trans ?_
    dsimp only
    rw [hp]
    exact .update ha.similar r (·.defineOwn _ _ _) (.defineOwn _ _ _)
  · exact .refl s

end Advance

/-- A change that adds an object: similar heaps give it the same place and advance. -/
def Adds (T : FunctionCode → FunctionCode → Prop) (f : Heap → Ref × Heap) : Prop :=
  ∀ {h k}, Similar T h k → (f h).1 = (f k).1 ∧ Advance T h k (f h).2 (f k).2

theorem adds_make {cls : ObjectClass} (parent : Intrinsic) (properties : List (String × Value))
    (hcls : ∀ code scope, cls.shape ≠ .script code scope) :
    Adds T (·.make cls parent properties) :=
  fun s => ⟨s.size, .make s parent properties hcls⟩

theorem adds_newObject : Adds T (·.newObject) :=
  adds_make _ _ fun _ _ => ClassShape.noConfusion

theorem adds_newArray (elements : Array Value) : Adds T (·.newArray elements) :=
  adds_make _ _ fun _ _ => ClassShape.noConfusion

theorem adds_newRegularExpression (pattern flags : String) :
    Adds T (·.newRegularExpression pattern flags) :=
  adds_make _ _ fun _ _ => ClassShape.noConfusion

theorem adds_newError (kind : Option ErrorKind) (message : String) :
    Adds T (·.newError kind message) :=
  adds_make _ _ fun _ _ => ClassShape.noConfusion

theorem adds_newArguments (arguments : List Value) (paramCount : Nat) (callee : Option Ref) :
    Adds T (·.newArguments arguments paramCount callee) :=
  adds_make _ _ fun _ _ => ClassShape.noConfusion

theorem adds_plain (prototype : Ref) : Adds T (·.alloc (.plain .ordinary (some prototype))) :=
  fun s => ⟨s.size, .alloc s fun _ _ => ClassShape.noConfusion⟩

theorem adds_wrap (v : Value) : Adds T fun h => (h.wrap? v).getD (0, h) := by
  intro h k s
  cases v with
  | undefined | null => exact ⟨rfl, .refl s⟩
  | object r => exact ⟨rfl, .refl s⟩
  | boolean b => exact adds_make _ _ (fun _ _ => ClassShape.noConfusion) s
  | number x => exact adds_make _ _ (fun _ _ => ClassShape.noConfusion) s
  | string t => exact adds_make _ _ (fun _ _ => ClassShape.noConfusion) s

end Heap

end ScriptEngine
