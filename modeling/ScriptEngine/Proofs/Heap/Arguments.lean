import ScriptEngine.Proofs.Heap.Similarity
import ScriptEngine.Proofs.Heap.Views

/-!
# Arguments and parameters

An arguments object keeps the parameters of a call.  Those with an argument are elements at the same
time: what is written to the element is read from the parameter, and the other way round.
Parameters without an argument are no properties, and an index beyond the arguments is a name like
any other.

## Main definitions

* `ArgumentsChange` : what is done to an arguments object.
* `ArgumentsChange.written?` : the value that a change gives a parameter.
* `parameterAfter` : what a history says about a parameter.
* `Object.Aliases` : elements and parameters are the same, as far as there are arguments.

## Main statements

* `Object.Passes.changes` : a parameter has the value that it was given last.
* `Object.arguments_alias` : an arguments object after any changes.
-/

namespace ScriptEngine

/-! ### Changes -/

/-- What is done to an arguments object. -/
inductive ArgumentsChange where
  | property (c : PropertyChange)
  | parameter (index : Nat) (v : Value)

namespace ArgumentsChange

/-- The change of the object. -/
def apply (o : Object) : ArgumentsChange → Object
  | .property c => c.apply o
  | .parameter index v => o.setParameter index v

/-- The value that a change gives a parameter of a call with `n` arguments. -/
def written? (n i : Nat) : ArgumentsChange → Option Value
  | .property (.put key v) => if arrayIndex? key = some i ∧ i < n then some v else none
  | .property (.delete key) => if arrayIndex? key = some i ∧ i < n then some .undefined else none
  | .property (.define ..) => none
  | .parameter index v => if index = i then some v else none

end ArgumentsChange

/-- The value that a parameter was given last: by a change, or by the call.  Without an argument it
is `undefined` at first. -/
def parameterAfter (arguments : List Value) (history : List ArgumentsChange) (i : Nat) : Value :=
  (history.reverse.findSome? (·.written? arguments.length i)).getD (arguments[i]?.getD .undefined)

namespace Object

/-- An arguments object of a call with `n` arguments, with a value for `k` parameters at least. -/
def Passes (o : Object) (n k : Nat) : Prop :=
  ∃ values, o.cls = .arguments values n ∧ max n k ≤ values.size

namespace Passes

variable {o : Object} {n k : Nat}

section

variable (h : o.Passes n k)
include h

theorem isSome_element {values : Array Value} (hcls : o.cls = .arguments values n) {i : Nat}
    (hi : i < n) :
    values[i]? = some (o.parameter i) := by
  obtain ⟨others, hothers, hsize⟩ := h
  cases hcls.symm.trans hothers
  simp only [parameter, hcls]
  rw [Array.getElem?_eq_getElem (by omega), Option.getD_some]

/-- An element is read from the parameter. -/
theorem getOwn?_index {key : String} {i : Nat} (hi : arrayIndex? key = some i) (hlt : i < n) :
    o.getOwn? key = some (o.parameter i) := by
  obtain ⟨values, hcls, -⟩ := id h
  rw [← h.isSome_element hcls hlt]
  simp [getOwn?, hcls, hi, hlt]

/-- The arguments are the first parameters. -/
theorem take_toList {values : Array Value} (hcls : o.cls = .arguments values n) :
    values.toList.take n = (List.range n).map o.parameter := by
  obtain ⟨others, hothers, hsize⟩ := id h
  cases hcls.symm.trans hothers
  refine List.ext_getElem? fun i => ?_
  by_cases hi : i < n
  · simp [hi, h.isSome_element hcls hi]
  · simp only [List.getElem?_take, hi, if_false, List.getElem?_map]
    rw [List.getElem?_eq_none (by simpa using hi), Option.map_none]

end

theorem parameter_eq {values : Array Value} (hcls : o.cls = .arguments values n) (i : Nat) :
    o.parameter i = values[i]?.getD .undefined := by
  simp only [parameter, hcls]

/-- A write to a key: to the element if the key is its index, and to a name otherwise. -/
theorem write {o' : Object} (h : o.Passes n k) {key : String} {v : Value}
    (helement : ∀ values i, o.cls = .arguments values n → arrayIndex? key = some i → i < n →
      o'.cls = .arguments (values.setIfInBounds i v) n)
    (hname : (∀ i, arrayIndex? key = some i → n ≤ i) → o'.cls = o.cls) :
    o'.Passes n k ∧ ∀ i, o'.parameter i =
      (if arrayIndex? key = some i ∧ i < n then some v else none).getD (o.parameter i) := by
  obtain ⟨values, hcls, hsize⟩ := h
  by_cases hkey : ∃ i, arrayIndex? key = some i ∧ i < n
  · obtain ⟨i, hi, hlt⟩ := hkey
    have hcls' := helement values i hcls hi hlt
    refine ⟨⟨_, hcls', by rwa [Array.size_setIfInBounds]⟩, fun j => ?_⟩
    rw [parameter_eq hcls', parameter_eq hcls, Array.getElem?_setIfInBounds, hi]
    by_cases hj : i = j
    · subst hj
      rw [if_pos rfl, if_pos (by omega), if_pos ⟨rfl, hlt⟩]
      rfl
    · rw [if_neg hj, if_neg fun hj' => hj (Option.some.inj hj'.1)]
      rfl
  · have hcls' := (hname fun i hi => Nat.le_of_not_lt fun hlt => hkey ⟨i, hi, hlt⟩).trans hcls
    refine ⟨⟨_, hcls', hsize⟩, fun j => ?_⟩
    rw [parameter_eq hcls', parameter_eq hcls, if_neg fun hj => hkey ⟨j, hj⟩]
    rfl

theorem putOwn (h : o.Passes n k) (key : String) (v : Value) :
    (o.putOwn key v).Passes n k ∧ ∀ i, (o.putOwn key v).parameter i =
      (if arrayIndex? key = some i ∧ i < n then some v else none).getD (o.parameter i) := by
  obtain ⟨values, hcls, -⟩ := id h
  obtain ⟨cls, prototype, properties⟩ := o
  cases hcls
  refine h.write (fun values i hcls hi hlt => ?_) fun hkey => ?_
  · cases hcls
    simp [Object.putOwn, hi, hlt]
  · unfold Object.putOwn
    cases hi : arrayIndex? key with
    | none => rfl
    | some i => simp [Nat.not_lt.mpr (hkey i hi)]

theorem deleteOwn (h : o.Passes n k) (key : String) :
    (o.deleteOwn key).Passes n k ∧ ∀ i, (o.deleteOwn key).parameter i =
      (if arrayIndex? key = some i ∧ i < n then some .undefined else none).getD
        (o.parameter i) := by
  obtain ⟨values, hcls, -⟩ := id h
  obtain ⟨cls, prototype, properties⟩ := o
  cases hcls
  refine h.write (fun values i hcls hi hlt => ?_) fun hkey => ?_
  · cases hcls
    simp [Object.deleteOwn, hi, hlt]
  · unfold Object.deleteOwn
    cases hi : arrayIndex? key with
    | none => rfl
    | some i => simp [Nat.not_lt.mpr (hkey i hi)]

theorem setParameter (h : o.Passes n k) (index : Nat) (v : Value) :
    (o.setParameter index v).Passes n k ∧ ∀ i, (o.setParameter index v).parameter i =
      (if index = i then some v else none).getD (o.parameter i) := by
  obtain ⟨cls, prototype, properties⟩ := o
  obtain ⟨values, rfl, hsize⟩ := h
  refine ⟨⟨_, rfl, ?_⟩, fun i => ?_⟩
  · rw [size_writtenAt]
    omega
  · change (writtenAt values index v)[i]?.getD .undefined = _
    rw [getElem?_writtenAt, parameter]
    by_cases hi : index = i
    · rw [if_pos hi, if_pos hi.symm]
      rfl
    · rw [if_neg hi, if_neg (Ne.symm hi)]
      split <;> rfl

/-- One change of an arguments object. -/
theorem change (h : o.Passes n k) (c : ArgumentsChange) :
    (c.apply o).Passes n k ∧ ∀ i,
    (c.apply o).parameter i = (c.written? n i).getD (o.parameter i) := by
  cases c with
  | parameter index v => exact h.setParameter index v
  | property c =>
    cases c with
    | put key v => exact h.putOwn key v
    | delete key => exact h.deleteOwn key
    | define key v enumerable => exact ⟨h, fun i => rfl⟩

/-- After any changes a parameter has the value that it was given last. -/
theorem changes (h : o.Passes n k) (history : List ArgumentsChange) :
    (history.foldl ArgumentsChange.apply o).Passes n k ∧
      ∀ i, (history.foldl ArgumentsChange.apply o).parameter i =
        (history.reverse.findSome? (·.written? n i)).getD (o.parameter i) := by
  induction history generalizing o with
  | nil => exact ⟨h, fun i => rfl⟩
  | cons c rest ih =>
    obtain ⟨hc, hparameter⟩ := h.change c
    obtain ⟨hrest, hafter⟩ := ih hc
    refine ⟨hrest, fun i => ?_⟩
    rw [List.foldl_cons, hafter, hparameter, List.reverse_cons, List.findSome?_append,
      List.findSome?_singleton]
    cases rest.reverse.findSome? (·.written? n i) <;> rfl

/-- Writing a parameter changes no other property than its element. -/
theorem getOwn?_setParameter (h : o.Passes n k) (index : Nat) (v : Value) {key : String}
    (hkey : ¬ (arrayIndex? key = some index ∧ index < n)) :
    (o.setParameter index v).getOwn? key = o.getOwn? key := by
  cases hi : arrayIndex? key with
  | none =>
    obtain ⟨cls, prototype, properties⟩ := o
    obtain ⟨values, rfl, -⟩ := h
    simp [Object.setParameter, getOwn?, hi]
  | some i =>
    by_cases hlt : i < n
    · obtain ⟨h', hparameter⟩ := h.setParameter index v
      rw [h'.getOwn?_index hi hlt, h.getOwn?_index hi hlt, hparameter, if_neg]
      · rfl
      · rintro rfl
        exact hkey ⟨hi, hlt⟩
    · obtain ⟨cls, prototype, properties⟩ := o
      obtain ⟨values, rfl, -⟩ := h
      simp [Object.setParameter, getOwn?, hi, hlt]

theorem hasOwn_setParameter (o : Object) (index : Nat) (v : Value) (key : String) :
    (o.setParameter index v).hasOwn key = o.hasOwn key := by
  obtain ⟨cls, prototype, properties⟩ := o
  cases cls <;> rfl

theorem ownKeys_setParameter (o : Object) (index : Nat) (v : Value) (enumerableOnly : Bool) :
    (o.setParameter index v).ownKeys enumerableOnly = o.ownKeys enumerableOnly := by
  obtain ⟨cls, prototype, properties⟩ := o
  cases cls <;> rfl

theorem isOwnEnumerable_setParameter (o : Object) (index : Nat) (v : Value) (key : String) :
    (o.setParameter index v).isOwnEnumerable key = o.isOwnEnumerable key := by
  obtain ⟨cls, prototype, properties⟩ := o
  cases cls <;> rfl

end Passes

/-- An arguments object of a call with `n` arguments, for a function with `k` parameters: its
elements and the parameters with an argument are the same, and the other parameters and properties
do not touch each other. -/
structure Aliases (o : Object) (n k : Nat) (parameters : Nat → Value) : Prop where
  /-- There is a value for each argument and each parameter, and the number of arguments is kept. -/
  values : o.Passes n k
  reads : ∀ i, o.parameter i = parameters i
  element : ∀ key i, arrayIndex? key = some i → i < n → o.getOwn? key = some (parameters i)
  /-- A call that takes its arguments from the object gets all of them. -/
  list : ∀ (m : Machine) (r : Ref), m.heap.object r = o →
    Native.listOf (.object r) m = .ok ((List.range n).map parameters) m
  accepts : ∀ key v, o.acceptsOwn key v = true
  /-- Writing or deleting an element changes its parameter and no other one. -/
  putElement : ∀ key i v, arrayIndex? key = some i → i < n →
    ∀ j, (o.putOwn key v).parameter j = if j = i then v else parameters j
  deleteElement : ∀ key i, arrayIndex? key = some i → i < n →
    ∀ j, (o.deleteOwn key).parameter j = if j = i then .undefined else parameters j
  /-- Any other property changes no parameter. -/
  putOther : ∀ key v, (∀ i, arrayIndex? key = some i → n ≤ i) →
    ∀ j, (o.putOwn key v).parameter j = parameters j
  deleteOther : ∀ key, (∀ i, arrayIndex? key = some i → n ≤ i) →
    ∀ j, (o.deleteOwn key).parameter j = parameters j
  /-- Writing a parameter changes no other one, -/
  write : ∀ i v j, (o.setParameter i v).parameter j = if j = i then v else parameters j
  /-- and its element if it has one, -/
  writeElement : ∀ key i v, arrayIndex? key = some i → i < n →
    (o.setParameter i v).getOwn? key = some v
  /-- but no other property, and it makes and removes none. -/
  writeOther : ∀ key i v, ¬ (arrayIndex? key = some i ∧ i < n) →
    (o.setParameter i v).getOwn? key = o.getOwn? key
  writeKeys : ∀ i v, (∀ key, (o.setParameter i v).hasOwn key = o.hasOwn key) ∧
    (∀ key, (o.setParameter i v).isOwnEnumerable key = o.isOwnEnumerable key) ∧
    ∀ enumerableOnly, (o.setParameter i v).ownKeys enumerableOnly = o.ownKeys enumerableOnly

theorem Passes.aliases {o : Object} {n k : Nat} (h : o.Passes n k) : o.Aliases n k o.parameter where
  values := h
  reads _ := rfl
  element _ _ := h.getOwn?_index
  list m r hobject := by
    obtain ⟨values, hcls, -⟩ := id h
    have hlist : Native.listOf (.object r) m = .ok (values.toList.take n) m := by
      rw [← hobject] at hcls
      simp only [Native.listOf, bind, Exec.andThen, Run.onHeap, hcls]
      rfl
    rw [hlist, h.take_toList hcls]
  accepts key v := by
    obtain ⟨values, hcls, -⟩ := id h
    simp only [acceptsOwn, hcls]
  putElement key i v hi hlt j := by
    rw [(h.putOwn key v).2, hi]
    by_cases hj : j = i
    · simp [hj, hlt]
    · simp [hj, Ne.symm hj]
  deleteElement key i hi hlt j := by
    rw [(h.deleteOwn key).2, hi]
    by_cases hj : j = i
    · simp [hj, hlt]
    · simp [hj, Ne.symm hj]
  putOther key v hkey j := by
    rw [(h.putOwn key v).2, if_neg fun hj => Nat.not_lt.mpr (hkey j hj.1) hj.2]
    rfl
  deleteOther key hkey j := by
    rw [(h.deleteOwn key).2, if_neg fun hj => Nat.not_lt.mpr (hkey j hj.1) hj.2]
    rfl
  write i v j := by
    rw [(h.setParameter i v).2]
    by_cases hj : j = i
    · simp [hj]
    · simp [hj, Ne.symm hj]
  writeElement key i v hi hlt := by
    rw [(h.setParameter i v).1.getOwn?_index hi hlt, (h.setParameter i v).2, if_pos rfl]
    rfl
  writeOther key i v hkey := h.getOwn?_setParameter i v hkey
  writeKeys i v := ⟨Passes.hasOwn_setParameter o i v, Passes.isOwnEnumerable_setParameter o i v,
    Passes.ownKeys_setParameter o i v⟩

/-- A new arguments object has the arguments as its first parameters. -/
theorem passes_newArguments (h : Heap) (arguments : List Value) (paramCount : Nat)
    (callee : Option Ref) :
    let new := h.newArguments arguments paramCount callee
    (new.2.object new.1).Passes arguments.length paramCount ∧
      ∀ i, (new.2.object new.1).parameter i = arguments[i]?.getD .undefined := by
  intro new
  have hcls : (new.2.object new.1).cls = .arguments (padded arguments.toArray paramCount)
      arguments.length := by
    change ((h.alloc _).2.object h.size).cls = _
    rw [Heap.object_alloc, if_pos rfl, Heap.Advance.cls_foldl_defineOwn]
    rfl
  refine ⟨⟨_, hcls, ?_⟩, fun i => ?_⟩
  · rw [size_padded, List.size_toArray]
  · rw [Passes.parameter_eq hcls, getElem?_padded, List.getElem?_toArray]
    split <;> rfl

/-- An arguments object after any changes: each parameter has the value that it was given last, and
the elements are the parameters with an argument. -/
theorem arguments_alias (h : Heap) (arguments : List Value) (paramCount : Nat) (callee : Option Ref)
    (history : List ArgumentsChange) :
    let new := h.newArguments arguments paramCount callee
    (history.foldl ArgumentsChange.apply (new.2.object new.1)).Aliases arguments.length paramCount
      (parameterAfter arguments history) := by
  intro new
  obtain ⟨hnew, hinitial⟩ := passes_newArguments h arguments paramCount callee
  obtain ⟨hafter, hparameter⟩ := hnew.changes history
  have heq : parameterAfter arguments history =
      (history.foldl ArgumentsChange.apply (new.2.object new.1)).parameter := by
    funext i
    rw [hparameter, hinitial]
    rfl
  rw [heq]
  exact hafter.aliases

/-- A parameter without an argument is no property, and is written on its own. -/
example :
    let new := Heap.empty.newArguments [.null] 3 none
    let o := [.parameter 2 (.boolean true), .property (.put "2" .null)].foldl ArgumentsChange.apply
      (new.2.object new.1)
    o.hasOwn "1" = false ∧ (o.parameter 1).isNullish = true ∧ (o.parameter 2).toBoolean = true := by
  decide

end Object

end ScriptEngine
