import ScriptEngine.Proofs.Code.Constants
import ScriptEngine.Proofs.Heap.Walk

/-!
# Closed heaps

A heap is closed if all references in it are to objects that it has, and if each object inherits
from an older one.  The operations of the heap keep it closed as long as they are given nothing but
its own objects, and they never change what an object inherits from.

## Main definitions

* `Value.Below` : values that only refer to the first objects of a heap.
* `Object.Closed`, `Heap.Closed` : closed objects and heaps.
* `Heap.Ahead` : a closed heap that came from another one.
* `Heap.Added` : a new object in a closed heap.

## Main statements

* `Heap.Closed.get`, `Heap.Closed.parameter` : reading a closed heap.
* `Heap.Closed.update`, `Heap.Closed.make`, `Heap.Closed.ensurePrototype` : changing it.
* `Heap.closed_initial` : the first heap is closed.
-/

namespace ScriptEngine

/-! ### Values -/

/-- A value is primitive or one of the first `n` objects. -/
def Value.Below (n : Nat) : Value → Prop
  | .object r => r < n
  | _ => True

theorem Value.Below.mono {n k : Nat} {v : Value} (h : v.Below n) (hnk : n ≤ k) : v.Below k := by
  cases v with
  | object r => exact Nat.lt_of_lt_of_le h hnk
  | _ => trivial

theorem Value.below_of_primitive {n : Nat} {v : Value} (h : v.isObject = false) : v.Below n := by
  cases v with
  | object r => cases h
  | _ => trivial

/-- All values of an array are primitive or among the first `n` objects. -/
def AllBelow (n : Nat) (values : Array Value) : Prop :=
  ∀ v ∈ values, v.Below n

namespace AllBelow

variable {n k : Nat} {values others : Array Value} {v : Value}

theorem mono (h : AllBelow n values) (hnk : n ≤ k) : AllBelow k values :=
  fun v hv => (h v hv).mono hnk

theorem getD (h : AllBelow n values) (i : Nat) : (values[i]?.getD .undefined).Below n := by
  cases hi : values[i]? with
  | none => trivial
  | some v => exact h v (Array.mem_of_getElem? hi)

theorem replicate (n i : Nat) : AllBelow n (Array.replicate i .undefined) := by
  intro v hv
  rw [(Array.mem_replicate.mp hv).2]
  trivial

theorem ofList {l : List Value} (h : ∀ v ∈ l, v.Below n) : AllBelow n l.toArray :=
  fun v hv => h v (List.mem_toArray.mp hv)

theorem append (h : AllBelow n values) (h' : AllBelow n others) : AllBelow n (values ++ others) :=
  fun v hv => (Array.mem_append.mp hv).elim (h v) (h' v)

theorem push (h : AllBelow n values) (hv : v.Below n) : AllBelow n (values.push v) := by
  intro w hw
  rcases Array.mem_push.mp hw with hw | rfl
  · exact h w hw
  · exact hv

theorem set (h : AllBelow n values) (i : Nat) (hv : v.Below n) :
    AllBelow n (values.setIfInBounds i v) := by
  intro w hw
  rcases Array.mem_or_eq_of_mem_setIfInBounds hw with hw | rfl
  · exact h w hw
  · exact hv

theorem pop (h : AllBelow n values) : AllBelow n values.pop := by
  intro w hw
  obtain ⟨i, hi⟩ := Array.mem_iff_getElem?.mp hw
  rw [Array.getElem?_pop] at hi
  split at hi
  · exact h w (Array.mem_of_getElem? hi)
  · cases hi

theorem shrink (h : AllBelow n values) (i : Nat) : AllBelow n (values.shrink i) := by
  intro w hw
  rw [Array.shrink_eq_take, Array.take_eq_extract] at hw
  obtain ⟨j, hj, rfl⟩ := Array.mem_extract_iff_getElem.mp hw
  exact h _ (Array.getElem_mem _)

theorem padded (h : AllBelow n values) (i : Nat) : AllBelow n (padded values i) :=
  h.append (.replicate n _)

theorem resized (h : AllBelow n values) (i : Nat) : AllBelow n (resized values i) := by
  unfold ScriptEngine.resized
  split
  · exact h.shrink i
  · exact h.padded i

theorem writtenAt (h : AllBelow n values) (i : Nat) (hv : v.Below n) :
    AllBelow n (writtenAt values i v) := by
  unfold ScriptEngine.writtenAt
  split
  · exact h.set i hv
  · exact (h.padded i).push hv

end AllBelow

/-! ### Objects -/

/-- The values of a class are primitive or among the first `n` objects, and functions of scripts
have no object in their code. -/
def ObjectClass.Closed (n : Nat) : ObjectClass → Prop
  | .array elements => AllBelow n elements
  | .arguments values _ => AllBelow n values
  | .function (.script code _) => code.Primitive
  | _ => True

theorem ObjectClass.Closed.mono {n k : Nat} {cls : ObjectClass} (h : cls.Closed n) (hnk : n ≤ k) :
    cls.Closed k := by
  cases cls with
  | array elements => exact AllBelow.mono h hnk
  | arguments values length => exact AllBelow.mono h hnk
  | function f =>
    cases f with
    | script code scope => exact h
    | native f => trivial
  | _ => trivial

/-- All that an object refers to is among the first `n` objects. -/
structure Object.Closed (n : Nat) (o : Object) : Prop where
  cls : o.cls.Closed n
  properties : ∀ e ∈ o.properties.entries, e.value.Below n

theorem PropertyMap.forall_upsert {P : PropertyEntry → Prop} {key : String}
    {change : PropertyEntry → PropertyEntry} {fresh : PropertyEntry} {l : List PropertyEntry}
    (h : ∀ e ∈ l, P e) (hchange : ∀ e, P e → P (change e)) (hfresh : P fresh) :
    ∀ e ∈ upsert key change fresh l, P e := by
  induction l with
  | nil => exact List.forall_mem_singleton.mpr hfresh
  | cons e rest ih =>
    obtain ⟨he, hrest⟩ := List.forall_mem_cons.mp h
    unfold upsert
    split
    · exact List.forall_mem_cons.mpr ⟨hchange e he, hrest⟩
    · exact List.forall_mem_cons.mpr ⟨he, ih hrest⟩

namespace Object.Closed

variable {n k : Nat} {o : Object} {v : Value}

theorem mono (h : o.Closed n) (hnk : n ≤ k) : o.Closed k where
  cls := h.cls.mono hnk
  properties := fun e he => (h.properties e he).mono hnk

theorem plain {cls : ObjectClass} (h : cls.Closed n) (prototype : Option Ref) :
    (Object.plain cls prototype).Closed n :=
  ⟨h, nofun⟩

theorem array {elements : Array Value} {prototype : Option Ref} {properties : PropertyMap}
    (h : AllBelow n elements) (hp : ∀ e ∈ properties.entries, e.value.Below n) :
    (Object.mk (.array elements) prototype properties).Closed n :=
  ⟨h, hp⟩

theorem arguments {values : Array Value} {length : Nat} {prototype : Option Ref}
    {properties : PropertyMap} (h : AllBelow n values)
    (hp : ∀ e ∈ properties.entries, e.value.Below n) :
    (Object.mk (.arguments values length) prototype properties).Closed n :=
  ⟨h, hp⟩

theorem named (h : o.Closed n) (key : String) :
    ∀ w ∈ (o.properties.get? key).map (·.value), w.Below n := by
  intro w hw
  obtain ⟨e, he, rfl⟩ := Option.map_eq_some_iff.mp hw
  exact h.properties e (List.mem_of_find?_eq_some he)

/-- An own property of a closed object. -/
theorem getOwn? (h : o.Closed n) (key : String) : ∀ w ∈ o.getOwn? key, w.Below n := by
  have hnamed := h.named key
  obtain ⟨cls, prototype, properties⟩ := o
  have hcls : cls.Closed n := h.cls
  intro w hw
  unfold Object.getOwn? at hw
  cases cls with
  | array elements =>
    dsimp only at hw
    split at hw
    · cases hw
      trivial
    · split at hw
      · exact hcls w (Array.mem_of_getElem? hw)
      · exact hnamed w hw
  | arguments values length =>
    dsimp only at hw
    split at hw
    · split at hw
      · exact hcls w (Array.mem_of_getElem? hw)
      · exact hnamed w hw
    · exact hnamed w hw
  | string s =>
    dsimp only at hw
    split at hw
    · cases hw
      trivial
    · split at hw
      · obtain ⟨c, -, rfl⟩ := Option.map_eq_some_iff.mp hw
        trivial
      · exact hnamed w hw
  | _ => exact hnamed w hw

theorem parameter (h : o.Closed n) (index : Nat) : (o.parameter index).Below n := by
  obtain ⟨cls, prototype, properties⟩ := o
  have hcls : cls.Closed n := h.cls
  cases cls with
  | arguments values length => exact AllBelow.getD hcls index
  | _ => trivial

theorem elements (h : o.Closed n) : AllBelow n (Native.elements o) := by
  obtain ⟨cls, prototype, properties⟩ := o
  have hcls : cls.Closed n := h.cls
  cases cls with
  | array elements => exact hcls
  | _ => exact fun v hv => absurd hv (Array.not_mem_empty v)

theorem put {properties : PropertyMap} (h : ∀ e ∈ properties.entries, e.value.Below n)
    (key : String) (hv : v.Below n) : ∀ e ∈ (properties.put key v).entries, e.value.Below n :=
  PropertyMap.forall_upsert h (fun _ _ => hv) hv

theorem erase {properties : PropertyMap} (h : ∀ e ∈ properties.entries, e.value.Below n)
    (key : String) :
    ∀ e ∈ (properties.erase key).entries, e.value.Below n :=
  fun e he => h e (List.mem_filter.mp he).1

theorem defineOwn (h : o.Closed n) (key : String) (hv : v.Below n) (enumerable : Bool) :
    (o.defineOwn key v enumerable).Closed n :=
  ⟨h.cls, PropertyMap.forall_upsert h.properties (fun _ _ => hv) hv⟩

theorem putOwn (h : o.Closed n) (key : String) (hv : v.Below n) : (o.putOwn key v).Closed n := by
  obtain ⟨cls, prototype, properties⟩ := o
  obtain ⟨hcls, hp⟩ := h
  have hput := put hp key hv
  cases cls with
  | array elements =>
    unfold Object.putOwn
    dsimp only
    split
    · split
      · exact .array (AllBelow.resized hcls _) hp
      · exact .array hcls hp
    · split
      · exact .array (AllBelow.writtenAt hcls _ hv) hp
      · exact .array hcls hput
  | arguments values length =>
    unfold Object.putOwn
    dsimp only
    split
    · split
      · exact .arguments (AllBelow.set hcls _ hv) hp
      · exact .arguments hcls hput
    · exact .arguments hcls hput
  | string s =>
    unfold Object.putOwn
    dsimp only
    split
    · exact ⟨trivial, hp⟩
    · split
      · split
        · exact ⟨trivial, hp⟩
        · exact ⟨trivial, hput⟩
      · exact ⟨trivial, hput⟩
  | _ => exact ⟨hcls, hput⟩

theorem deleteOwn (h : o.Closed n) (key : String) : (o.deleteOwn key).Closed n := by
  obtain ⟨cls, prototype, properties⟩ := o
  obtain ⟨hcls, hp⟩ := h
  have herase := erase hp key
  cases cls with
  | array elements =>
    unfold Object.deleteOwn
    dsimp only
    split
    · exact .array hcls hp
    · split
      · split
        · exact .array (AllBelow.set hcls _ trivial) hp
        · exact .array hcls herase
      · exact .array hcls herase
  | arguments values length =>
    unfold Object.deleteOwn
    dsimp only
    split
    · split
      · exact .arguments (AllBelow.set hcls _ trivial) hp
      · exact .arguments hcls herase
    · exact .arguments hcls herase
  | string s =>
    unfold Object.deleteOwn
    dsimp only
    split
    · exact ⟨trivial, hp⟩
    · exact ⟨trivial, herase⟩
  | _ => exact ⟨hcls, herase⟩

theorem setParameter (h : o.Closed n) (index : Nat) (hv : v.Below n) :
    (o.setParameter index v).Closed n := by
  obtain ⟨cls, prototype, properties⟩ := o
  obtain ⟨hcls, hp⟩ := h
  cases cls with
  | arguments values length => exact .arguments (AllBelow.writtenAt hcls index hv) hp
  | _ => exact ⟨hcls, hp⟩

theorem changeElements (h : o.Closed n) {f : Array Value → Array Value}
    (hf : ∀ {values}, AllBelow n values → AllBelow n (f values)) :
    (Native.changeElements f o).Closed n := by
  obtain ⟨cls, prototype, properties⟩ := o
  obtain ⟨hcls, hp⟩ := h
  cases cls with
  | array elements => exact .array (hf hcls) hp
  | _ => exact ⟨hcls, hp⟩

end Object.Closed

/-! ### Heaps -/

theorem Intrinsic.closed_cls (n : Nat) (i : Intrinsic) : i.cls.Closed n := by
  cases i with
  | arrayPrototype => exact fun v hv => absurd hv (Array.not_mem_empty v)
  | _ => trivial

namespace Heap

/-- All references in a heap are to its own objects, and objects inherit from older ones only. -/
structure Closed (h : Heap) : Prop where
  intrinsics : Intrinsic.all.length ≤ h.size
  linked : h.Linked
  object : ∀ r, (h.object r).Closed h.size

/-- A closed heap that has all objects of another one, which inherit from what they did. -/
structure Ahead (h k : Heap) : Prop where
  closed : k.Closed
  links : KeepsLinks h k

theorem Ahead.trans {h k l : Heap} (a : Ahead h k) (b : Ahead k l) : Ahead h l :=
  ⟨b.closed, a.links.trans b.links⟩

/-- An object of a closed heap that came from another one. -/
structure Added (h : Heap) (x : Ref × Heap) : Prop extends Ahead h x.2 where
  ref_lt : x.1 < x.2.size

namespace Closed

variable {h : Heap}

theorem ahead (c : h.Closed) : Ahead h h :=
  ⟨c, .refl h⟩

theorem ref_lt (c : h.Closed) (i : Intrinsic) : i.ref < h.size := by
  refine Nat.lt_of_lt_of_le ?_ c.intrinsics
  cases i <;> decide

/-! #### Reading -/

/-- What is found on a closed heap. -/
theorem get (c : h.Closed) (r : Ref) (key : String) : (h.get r key).Below h.size := by
  unfold Heap.get
  cases hfound : (h.chain r).findSome? fun q => (h.object q).getOwn? key with
  | none => trivial
  | some v =>
    obtain ⟨q, -, hq⟩ := List.exists_of_findSome?_eq_some hfound
    exact (c.object q).getOwn? key v hq

theorem parameter (c : h.Closed) (arguments : Value) (index : Nat) :
    (h.parameter arguments index).Below h.size := by
  cases arguments with
  | object r => exact (c.object r).parameter index
  | _ => trivial

/-! #### Changes -/

theorem alloc (c : h.Closed) {o : Object} (ho : o.Closed h.size)
    (hp : ∀ p, o.prototype = some p → p < h.size) : Added h (h.alloc o) where
  links := .alloc h o
  ref_lt := by
    rw [size_alloc]
    exact Nat.lt_succ_self _
  closed := by
    have hle : h.size ≤ (h.alloc o).2.size := (KeepsLinks.alloc h o).size_le
    refine ⟨Nat.le_trans c.intrinsics hle, fun r p => ?_, fun r => ?_⟩
    · rw [object_alloc]
      split
      · rename_i hr
        exact fun hpr => hr ▸ hp p hpr
      · exact c.linked r p
    · rw [object_alloc]
      split
      · exact ho.mono hle
      · exact (c.object r).mono hle

theorem update (c : h.Closed) (r : Ref) {f : Object → Object} (hs : KeepsShape f)
    (hf : ∀ {o}, o.Closed h.size → (f o).Closed h.size) : Ahead h (h.update r f) where
  links := .update h r fun o => (hs o).2
  closed := by
    have hsize : (h.update r f).size = h.size := size_update h r f
    refine ⟨hsize ▸ c.intrinsics, fun q p => ?_, fun q => ?_⟩
    · rw [object_update]
      split
      · exact fun hp => c.linked q p ((hs _).2.symm.trans hp)
      · exact c.linked q p
    · rw [object_update, hsize]
      split
      · exact hf (c.object q)
      · exact c.object q

theorem foldl_defineOwn {n : Nat} (properties : List (String × Value)) {o : Object}
    (ho : o.Closed n) (hp : ∀ p ∈ properties, p.2.Below n) :
    (properties.foldl (fun o p => o.defineOwn p.1 p.2 false) o).Closed n := by
  induction properties generalizing o with
  | nil => exact ho
  | cons p rest ih =>
    obtain ⟨hv, hrest⟩ := List.forall_mem_cons.mp hp
    exact ih (ho.defineOwn p.1 hv false) hrest

theorem prototype_foldl_defineOwn (properties : List (String × Value)) (o : Object) :
    (properties.foldl (fun o p => o.defineOwn p.1 p.2 false) o).prototype = o.prototype := by
  induction properties generalizing o with
  | nil => rfl
  | cons p rest ih => exact ih _

/-- A new object of a class. -/
theorem make (c : h.Closed) (cls : ObjectClass) (hcls : cls.Closed h.size) (parent : Intrinsic)
    {properties : List (String × Value)} (hp : ∀ p ∈ properties, p.2.Below h.size) :
    Added h (h.make cls parent properties) := by
  refine c.alloc (foldl_defineOwn properties (.plain hcls _) hp) fun p hpr => ?_
  rw [prototype_foldl_defineOwn] at hpr
  cases hpr
  exact c.ref_lt parent

theorem newObject (c : h.Closed) : Added h h.newObject :=
  c.make .ordinary trivial _ nofun

theorem newArray (c : h.Closed) {elements : Array Value} (he : AllBelow h.size elements) :
    Added h (h.newArray elements) :=
  c.make (.array elements) he _ nofun

theorem newRegularExpression (c : h.Closed) (pattern flags : String) :
    Added h (h.newRegularExpression pattern flags) := by
  refine c.make .regularExpression trivial _ fun p hp => ?_
  simp only [List.mem_cons, List.not_mem_nil, or_false] at hp
  rcases hp with rfl | rfl | rfl | rfl | rfl <;> trivial

theorem newError (c : h.Closed) (kind : Option ErrorKind) (message : String) :
    Added h (h.newError kind message) := by
  refine c.make .error trivial _ fun p hp => ?_
  split at hp
  · cases hp
  · rw [List.mem_singleton.mp hp]
    trivial

theorem newNative (c : h.Closed) (f : Native) (length : Nat) : Added h (h.newNative f length) := by
  refine c.make (.function (.native f)) trivial _ fun p hp => ?_
  simp only [List.mem_cons, List.not_mem_nil, or_false] at hp
  rcases hp with rfl | rfl <;> trivial

theorem newFunction (c : h.Closed) {code : FunctionCode} (hcode : code.Primitive)
    (scope : Option RecordRef) : Added h (h.newFunction code scope) := by
  refine c.make (.function (.script code scope)) hcode _ fun p hp => ?_
  simp only [List.mem_cons, List.not_mem_nil, or_false] at hp
  rcases hp with rfl | rfl <;> trivial

theorem newArguments (c : h.Closed) {arguments : List Value} (ha : ∀ v ∈ arguments, v.Below h.size)
    (paramCount : Nat) {callee : Option Ref} (hc : ∀ r ∈ callee, r < h.size) :
    Added h (h.newArguments arguments paramCount callee) := by
  refine c.make (.arguments _ _) ((AllBelow.ofList ha).padded paramCount) _ fun p hp => ?_
  cases callee with
  | none =>
    rw [List.mem_singleton.mp hp]
    trivial
  | some r =>
    simp only [List.mem_cons, List.not_mem_nil, or_false] at hp
    rcases hp with rfl | rfl
    · trivial
    · exact hc r rfl

/-- The object of a value that is not `undefined` or `null`. -/
theorem wrap (c : h.Closed) {v : Value} (hv : v.Below h.size) :
    Added h ((h.wrap? v).getD (0, h)) := by
  cases v with
  | undefined | null => exact ⟨c.ahead, c.ref_lt .objectPrototype⟩
  | object r => exact ⟨c.ahead, hv⟩
  | boolean b => exact c.make (.boolean b) trivial _ nofun
  | number x => exact c.make (.number x) trivial _ nofun
  | string s => exact c.make (.string s) trivial _ nofun

theorem setParameter (c : h.Closed) (arguments : Value) (index : Nat) {v : Value}
    (hv : v.Below h.size) :
    Ahead h (h.setParameter arguments index v) := by
  cases arguments with
  | object r => exact c.update r (.setParameter index v) fun ho => ho.setParameter index hv
  | _ => exact c.ahead

theorem ensurePrototype (c : h.Closed) {f : Ref} (hf : f < h.size) :
    Ahead h (h.ensurePrototype f) := by
  unfold Heap.ensurePrototype
  split
  · have hp : Added h (h.make .ordinary .objectPrototype [("constructor", .object f)]) :=
      c.make .ordinary trivial _ (List.forall_mem_singleton.mpr hf)
    exact hp.toAhead.trans (hp.closed.update f (.defineOwn _ _ _) fun ho =>
      ho.defineOwn _ (v := .object _) hp.ref_lt _)
  · exact c.ahead

/-! #### The first heap -/

theorem hide (c : h.Closed) (r : Ref) (key : String) {v : Value} (hv : v.Below h.size) :
    Ahead h (h.hide r key v) :=
  c.update r (.defineOwn _ _ _) fun ho => ho.defineOwn key hv false

theorem addMethods (c : h.Closed) (r : Ref) (methods : List Method) :
    Ahead h (h.addMethods r methods) := by
  unfold Heap.addMethods
  induction methods generalizing h with
  | nil => exact c.ahead
  | cons m rest ih =>
    have hf := c.newNative m.function m.length
    have hhidden := hf.closed.hide r m.function.name (v := .object _) hf.ref_lt
    exact hf.toAhead.trans (hhidden.trans (ih hhidden.closed))

theorem hideAll (c : h.Closed) (r : Ref) {properties : List (String × Value)}
    (hp : ∀ p ∈ properties, p.2.isObject = false) :
    Ahead h (properties.foldl (fun h p => h.hide r p.1 p.2) h) := by
  induction properties generalizing h with
  | nil => exact c.ahead
  | cons p rest ih =>
    obtain ⟨hv, hrest⟩ := List.forall_mem_cons.mp hp
    have hhidden := c.hide r p.1 (Value.below_of_primitive hv)
    exact hhidden.trans (ih hhidden.closed hrest)

theorem install (c : h.Closed) {b : Builtin} (hb : ∀ p ∈ b.properties, p.2.isObject = false) :
    (h.install b).Closed := by
  unfold Heap.install
  dsimp only
  split
  · rename_i m prototype _
    have h₁ := c.newNative m.function m.length
    have h₂ := h₁.closed.addMethods prototype.ref b.methods
    have h₃ := h₂.closed.hideAll prototype.ref hb
    have hc := Nat.lt_of_lt_of_le h₁.ref_lt (h₂.trans h₃).links.size_le
    have h₄ := h₃.closed.hide prototype.ref "constructor" (v := .object _) hc
    have h₅ := h₄.closed.hide (h.newNative m.function m.length).1 "prototype"
        (v := .object prototype.ref)
      (h₄.closed.ref_lt prototype)
    have h₆ := h₅.closed.addMethods (h.newNative m.function m.length).1 b.statics
    have hc' := Nat.lt_of_lt_of_le hc (h₄.trans (h₅.trans h₆)).links.size_le
    exact (h₆.closed.hide Intrinsic.global.ref b.name (v := .object _) hc').closed
  · have h₁ := c.newObject
    have h₂ := h₁.closed.addMethods h.newObject.1 b.statics
    have ho := Nat.lt_of_lt_of_le h₁.ref_lt h₂.links.size_le
    exact (h₂.closed.hide Intrinsic.global.ref b.name (v := .object _) ho).closed

end Closed

theorem closed_foldl_alloc {n : Nat} (l : List Intrinsic) {h : Heap}
    (ho : ∀ r, (h.object r).Closed n) (r : Ref) :
    ((l.foldl (fun h i => (h.alloc (.plain i.cls (i.parent.map (·.ref)))).2) h).object r).Closed
    n := by
  induction l generalizing h with
  | nil => exact ho r
  | cons i rest ih =>
    refine ih fun r => ?_
    rw [object_alloc]
    split
    · exact .plain (Intrinsic.closed_cls n i) _
    · exact ho r

theorem closed_bare : bare.Closed where
  intrinsics := Nat.le_refl _
  linked := by
    intro r p hp
    rcases Nat.lt_or_ge r bare.size with hr | hr
    · have hall : ∀ r < Intrinsic.all.length, ((bare.object r).prototype.all (· < r)) =
          true := by decide
      have hlt := hall r hr
      rw [hp] at hlt
      exact of_decide_eq_true hlt
    · rw [object_of_size_le hr] at hp
      cases hp
  object := closed_foldl_alloc _ fun r => by
    rw [object_of_size_le (Nat.zero_le r)]
    exact ⟨trivial, nofun⟩

theorem closed_foldl_install (l : List Builtin) {h : Heap} (c : h.Closed)
    (hl : ∀ b ∈ l, ∀ p ∈ b.properties, p.2.isObject = false) : (l.foldl install h).Closed := by
  induction l generalizing h with
  | nil => exact c
  | cons b rest ih =>
    obtain ⟨hb, hrest⟩ := List.forall_mem_cons.mp hl
    exact ih (c.install hb) hrest

/-- The heap before the first script is closed. -/
theorem closed_initial : initial.Closed := by
  have hall : ∀ b ∈ Builtin.all, ∀ p ∈ b.properties, p.2.isObject = false := by decide
  have h₁ := closed_foldl_install Builtin.all closed_bare hall
  have h₂ := (h₁.hide Intrinsic.global.ref "NaN" (v := .number notANumber) trivial).closed
  have h₃ :=
    (h₂.hide Intrinsic.global.ref "Infinity" (v := .number positiveInfinity) trivial).closed
  exact (h₃.hide Intrinsic.global.ref "undefined" (v := .undefined) trivial).closed

end Heap

end ScriptEngine
