import ScriptEngine.Proofs.Run.Depth

/-!
# Results of `new`

The operator `new` runs a function of a script on a new object, and yields this object unless the
function returns another one.  A native function makes its result itself: some of them return a
primitive value when they are called without a `this`, and then so does `new`.

## Main definitions

* `Native.ReturnsPrimitive` : the native functions whose results are no objects.
* `Heap.IsPrimitiveNative` : values that are such functions.

## Main statements

* `Engine.construct_isObject_iff` : `new` yields an object unless it is applied to one of them.
* `Engine.construct_functionPrototype` : `new` of the prototype of all functions yields `undefined`.
-/

namespace ScriptEngine

/-- The native functions that return a primitive value when they are called without a `this`. -/
def Native.ReturnsPrimitive : Native → Prop
  | .functionPrototype | .objectToString | .arrayIsArray | .consoleLog => True
  | .object | .objectValueOf | .hasOwnProperty | .function | .functionCall | .functionApply
  | .functionToString | .array | .arrayPush | .arrayPop | .arrayJoin | .arrayToString | .error _
  | .errorToString => False

/-- A value is a native function whose results are no objects. -/
def Heap.IsPrimitiveNative (h : Heap) (v : Value) : Prop :=
  ∃ r f, v = .object r ∧ (h.object r).cls = .function (.native f) ∧ f.ReturnsPrimitive

/-! ### Native functions without a receiver -/

namespace Run

variable {α : Type} {v w : Value}

theorem isObject_new {f : Heap → Ref × Heap} (h : (Run.new f).Yields v) : v.isObject = true := by
  obtain ⟨m, m', h⟩ := h
  cases h
  rfl

theorem isObject_toObject (h : (toObject w).Yields v) : v.isObject = true := by
  cases w with
  | undefined | null => exact h.of_fail.elim
  | boolean | number | string | object =>
    unfold toObject at h
    exact isObject_new h

end Run

namespace Native

variable {call : Caller} {f : Native} {arguments : List Value} {v : Value}

/-- Without a receiver there is no array to work on. -/
theorem not_yields_receiver {method : String} {r : Ref} :
    ¬ (receiver .undefined method).Yields r := by
  intro h
  obtain ⟨found, hfound, h⟩ := h.of_bind
  obtain ⟨m, m', hfound⟩ := hfound
  obtain rfl : false = found := by
    cases hfound
    rfl
  exact h.of_fail

/-- A native function that is called without a `this` returns an object, unless it is one of those
that return a primitive value. -/
theorem isObject_iff_of_run
    (hcall : ∀ this arguments v, ¬ (call .undefined this arguments).Yields v)
    (h : (f.run call .undefined arguments).Yields v) :
    v.isObject = true ↔ ¬ f.ReturnsPrimitive := by
  cases f with
  | object =>
    refine iff_of_true ?_ not_false
    change (runObject arguments).Yields v at h
    unfold runObject at h
    dsimp only at h
    split at h
    · exact Run.isObject_new h
    · exact Run.isObject_toObject h
  | array =>
    refine iff_of_true ?_ not_false
    change (runArray arguments).Yields v at h
    unfold runArray at h
    split at h
    · split at h
      · exact Run.isObject_new h
      · exact h.of_fail.elim
    · exact Run.isObject_new h
  | error kind =>
    obtain ⟨message, -, h⟩ := h.of_bind
    exact iff_of_true (Run.isObject_new h) not_false
  | functionPrototype =>
    rw [h.of_pure]
    exact iff_of_false Bool.false_ne_true (not_not_intro trivial)
  | objectToString | arrayIsArray =>
    obtain ⟨_, -, h⟩ := h.of_bind
    rw [h.of_pure]
    exact iff_of_false Bool.false_ne_true (not_not_intro trivial)
  | consoleLog =>
    obtain ⟨_, -, h⟩ := h.of_bind
    obtain ⟨_, -, h⟩ := h.of_bind
    rw [h.of_pure]
    exact iff_of_false Bool.false_ne_true (not_not_intro trivial)
  | objectValueOf | function | errorToString => exact h.of_fail.elim
  | hasOwnProperty =>
    obtain ⟨_, -, h⟩ := h.of_bind
    obtain ⟨_, hobject, -⟩ := h.of_bind
    exact hobject.of_fail.elim
  | functionCall => exact (hcall _ _ _ h).elim
  | functionApply =>
    obtain ⟨list, -, h⟩ := h.of_bind
    exact (hcall _ _ _ h).elim
  | functionToString =>
    obtain ⟨text?, ⟨m, m', htext⟩, h⟩ := h.of_bind
    obtain rfl : none = text? := by
      cases htext
      rfl
    exact h.of_fail.elim
  | arrayPush | arrayPop | arrayJoin | arrayToString =>
    obtain ⟨r, hr, -⟩ := h.of_bind
    exact (not_yields_receiver hr).elim

end Native

/-! ### Functions -/

section

variable {v : Value} {m m' : Machine}

/-- Only a function is found by a look-up that needs one. -/
theorem of_callable {what : String} {found : Ref × Callable}
    (h : Run.callable v what m = .ok found m') :
    v = .object found.1 ∧ (m.heap.object found.1).cls = .function found.2 ∧ m' = m := by
  by_cases hv : m.heap.isCallable v = true
  · obtain ⟨r, f, rfl, hf⟩ := exists_function hv
    rw [callable_of_function what hf] at h
    cases h
    exact ⟨rfl, hf, rfl⟩
  · obtain ⟨e, he⟩ := callable_of_not_callable what (Bool.eq_false_iff.mpr hv)
    rw [he] at h
    cases h

/-- What is no function cannot be called. -/
theorem not_yields_call_undefined (fuel : Nat) (this : Value) (arguments : List Value) :
    ¬ (callWithin fuel .undefined this arguments).Yields v := by
  rintro ⟨m, m', h⟩
  cases fuel with
  | zero => cases h
  | succ fuel =>
    obtain ⟨found, m₁, hfound, -⟩ := Exec.ok_of_bind h
    cases (of_callable hfound).1

/-- A call of a native function yields what the function does. -/
theorem yields_of_callWithin {fuel : Nat} {r : Ref} {f : Native} {this : Value}
    {arguments : List Value} (hf : (m.heap.object r).cls = .function (.native f))
    (h : callWithin fuel (.object r) this arguments m = .ok v m') :
    ∃ depth, (f.run (callWithin depth) this arguments).Yields v := by
  cases fuel with
  | zero => cases h
  | succ fuel =>
    refine ⟨fuel, { m with depth := m.depth + 1 }, ?_⟩
    change callWith (.within fuel) (.object r) this arguments m = _ at h
    rw [callWith_of_function (.within fuel) this arguments hf] at h
    unfold Run.nested at h
    split at h
    · split at h
      · next w n hn =>
        cases h
        exact ⟨n, hn⟩
      · cases h
      · cases h
    · cases h

end

/-! ### The operator -/

namespace Engine

/-- What `new` yields is an object, unless `new` is applied to a native function that returns a
primitive value. -/
theorem construct_isObject_iff {fuel : Nat} {callee v : Value} {arguments : List Value}
    {e e' : Engine} (h : e.construct fuel callee arguments = .ok v e') :
    v.isObject = true ↔ ¬ e.machine.heap.IsPrimitiveNative callee := by
  obtain ⟨m, options⟩ := e
  obtain ⟨m', hm⟩ : ∃ m', Run.construct (callWithin fuel) callee arguments m = .ok v m' := by
    unfold construct perform at h
    dsimp only at h
    split at h
    · next w n hn =>
      cases h
      exact ⟨n, hn⟩
    · cases h
    · cases h
  obtain ⟨⟨r, f⟩, m₁, hfound, hrest⟩ := Exec.ok_of_bind hm
  obtain ⟨rfl, hf, rfl⟩ := of_callable hfound
  clear hm
  cases f with
  | native f =>
    obtain ⟨depth, hyields⟩ := yields_of_callWithin hf hrest
    refine (Native.isObject_iff_of_run (fun _ _ _ => not_yields_call_undefined depth _ _)
      hyields).trans (not_congr ⟨fun hprimitive => ⟨r, f, rfl, hf, hprimitive⟩, ?_⟩)
    rintro ⟨r', f', hr, hf', hprimitive⟩
    cases hr
    cases hf.symm.trans hf'
    exact hprimitive
  | script code scope =>
    refine iff_of_true ?_ ?_
    · -- the result of the function counts only if it is an object
      obtain ⟨_, m₂, -, hrest⟩ := Exec.ok_of_bind hrest
      obtain ⟨prototype, m₃, -, hrest⟩ := Exec.ok_of_bind hrest
      obtain ⟨this, m₄, hthis, hrest⟩ := Exec.ok_of_bind hrest
      obtain ⟨w, m₅, -, hrest⟩ := Exec.ok_of_bind hrest
      obtain rfl := Exec.Yields.of_pure ⟨_, _, hrest⟩
      split
      · next hw => exact hw
      · exact Run.isObject_new ⟨_, _, hthis⟩
    · rintro ⟨r', f', hr, hf', -⟩
      cases hr
      cases hf.symm.trans hf'

/-- A new array. -/
theorem construct_isObject_array :
    let e : Engine := .ofConfig .standard
    let array := e.machine.heap.get Intrinsic.global.ref "Array"
    ∃ v e', e.construct 1 array [.null] = .ok v e' ∧
      (v.isObject = true ↔ ¬ e.machine.heap.IsPrimitiveNative array) := by
  intro e array
  have hends : (e.construct 1 array [.null]).passes (fun _ _ => true) = true := by decide +kernel
  obtain ⟨v, e', hend, -⟩ := Ending.exists_of_passes hends
  exact ⟨v, e', hend, construct_isObject_iff hend⟩

/-- The prototype of all functions is one itself, and `new` passes on the `undefined` that it
returns. -/
theorem construct_functionPrototype :
    let e : Engine := .ofConfig .standard
    let callee : Value := .object Intrinsic.functionPrototype.ref
    e.machine.heap.isCallable callee = true ∧
      ∃ v e', e.construct 1 callee [] = .ok v e' ∧ v.isObject = false := by
  intro e callee
  have hends : (e.construct 1 callee []).passes (fun v _ => !v.isObject) = true := by decide +kernel
  obtain ⟨v, e', hend, hv⟩ := Ending.exists_of_passes hends
  exact ⟨by decide +kernel, v, e', hend, by simpa using hv⟩

end Engine

end ScriptEngine
