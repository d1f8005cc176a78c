import ScriptEngine.Proofs.Heap.Similarity
import ScriptEngine.Proofs.Heap.Views
import ScriptEngine.Proofs.Number.Value
import ScriptEngine.Proofs.Run.Agreement

/-!
# Arrays

The elements of an array, its `length` and its named properties are behind one interface of keys.
They stay apart: an array keeps no named property under an index or under `length`, whatever is
written to it.  So an array is a vector without gaps, beside which there are names.

## Main definitions

* `ArrayChange` : what is done to an array.
* `Machine.withElements` : the machine in which an array has other elements.
* `Machine.DenseAt` : an array is a vector without gaps.

## Main statements

* `arrayLength?_eq_some` : the lengths that an array can be given are the integers below `2 ^ 32`.
* `Machine.DenseAt.change` : one change of an array.
* `Machine.arrays_dense` : an array after any changes.
-/

namespace ScriptEngine

/-! ### Elements -/

open Object (size_padded getElem?_padded size_writtenAt getElem?_writtenAt)

theorem size_resized (values : Array Value) (n : Nat) : (resized values n).size = n := by
  unfold resized
  split
  · next h => rw [Array.size_shrink, Nat.min_eq_left h]
  · next h => rw [size_padded, Nat.max_eq_right (Nat.le_of_not_le h)]

theorem getElem?_resized (values : Array Value) {n j : Nat} (hj : j < n) :
    (resized values n)[j]? = some (values[j]?.getD .undefined) := by
  unfold resized
  split
  · next h =>
    rw [Array.getElem?_eq_getElem (by simp; omega), Array.getElem_shrink,
      Array.getElem?_eq_getElem (Nat.lt_of_lt_of_le hj h), Option.getD_some]
  · rw [getElem?_padded, if_pos hj]

/-- The lengths that an array can be given are the integers below `2 ^ 32`. -/
theorem arrayLength?_eq_some {v : Value} {n : Nat} :
    arrayLength? v = some n ↔
      n < 2 ^ 32 ∧ ∃ x, v = .number x ∧ (Binary64.ofFloat x).value? = some (n : ℚ) := by
  cases v with
  | number x =>
    have hvalue : (Binary64.ofFloat x).value? = some (n : ℚ) ↔
        (Binary64.ofFloat x).integerPart? = some (n : Int) :=
      Binary64.integerPart?_eq_some.symm
    simp only [Value.number.injEq, exists_eq_left', hvalue, arrayLength?]
    cases (Binary64.ofFloat x).integerPart? with
    | none => simp
    | some k =>
      simp only [Option.ite_none_right_eq_some, Option.some.injEq, Bool.and_eq_true,
        decide_eq_true_eq]
      omega
  | _ => simp [arrayLength?]

/-! ### Changes -/

/-- What is done to an array. -/
inductive ArrayChange where
  | put (key : String) (v : Value)
  | delete (key : String)
  | push (values : List Value)
  | pop

/-- The change of the array at a place. -/
def ArrayChange.run (r : Ref) : ArrayChange → Run Value
  | .put key v => do
    Run.putOwn r key v
    return .undefined
  | .delete key => do return .boolean (← Run.deleteOwn r key)
  | .push values => Native.runPush (.object r) values
  | .pop => Native.runPop (.object r)

/-- The machine after a change, whether it succeeds or fails. -/
def ArrayChange.apply (r : Ref) (m : Machine) (c : ArrayChange) : Machine :=
  ((c.run r m).state?).getD m

/-- The machine in which an array has other elements.  All else is as before. -/
def Machine.withElements (m : Machine) (r : Ref) (elements : Array Value) : Machine :=
  { m with heap := m.heap.update r ({ · with cls := .array elements }) }

theorem Machine.withElements_withElements (m : Machine) (r : Ref) (first second : Array Value) :
    (m.withElements r first).withElements r second = m.withElements r second := by
  have hobject : (m.withElements r first).heap.update r ({ · with cls := .array second }) =
      m.heap.update r ({ · with cls := .array second }) := by
    refine Heap.Similar.eq ⟨by simp only [Machine.withElements, Heap.size_update], fun q => ?_⟩
    simp only [Machine.withElements, Heap.object_update, Heap.size_update]
    split
    · exact .refl _
    · exact .refl _
  rw [Machine.withElements, hobject]
  rfl

/-- An array is a vector without gaps, beside which there are names. -/
structure Machine.DenseAt (m : Machine) (r : Ref) (prototype : Option Ref) (elements : Array Value)
    (names : PropertyMap) : Prop where
  object : m.heap.object r = ⟨.array elements, prototype, names⟩
  /-- No name is an index or `length`. -/
  apart : ∀ key ∈ names.keys, key ≠ "length" ∧ arrayIndex? key = none

namespace Machine.DenseAt

variable {m : Machine} {r : Ref} {prototype : Option Ref} {elements : Array Value}
  {names : PropertyMap}

section

variable (h : m.DenseAt r prototype elements names)
include h

theorem lt_size : r < m.heap.size := by
  refine Nat.lt_of_not_le fun hle => ?_
  have hobject := h.object
  rw [Heap.object_of_size_le hle] at hobject
  cases congrArg Object.cls hobject

theorem object_update (f : Object → Object) :
    (m.heap.update r f).object r = f ⟨.array elements, prototype, names⟩ := by
  rw [Heap.object_update, if_pos ⟨rfl, h.lt_size⟩, h.object]

/-- A change of the elements alone. -/
theorem withElements (after : Array Value) :
    (m.withElements r after).DenseAt r prototype after names :=
  ⟨h.object_update _, h.apart⟩

theorem withElements_self : m.withElements r elements = m := by
  have hobject : m.heap.update r ({ · with cls := .array elements }) = m.heap := by
    refine Heap.Similar.eq ⟨Heap.size_update .., fun q => ?_⟩
    rw [Heap.object_update]
    split
    · next hq =>
      obtain ⟨rfl, -⟩ := hq
      rw [h.object]
      exact .refl _
    · exact .refl _
  rw [Machine.withElements, hobject]

/-- Two changes of the object that do the same to it. -/
theorem update_congr {f g : Object → Object}
    (hfg : f ⟨.array elements, prototype, names⟩ = g ⟨.array elements, prototype, names⟩) :
    { m with heap := m.heap.update r f } = { m with heap := m.heap.update r g } := by
  congr 1
  refine Heap.Similar.eq ⟨by rw [Heap.size_update, Heap.size_update], fun q => ?_⟩
  rw [Heap.object_update, Heap.object_update]
  by_cases hq : r = q ∧ q < m.heap.size
  · obtain ⟨rfl, hr⟩ := hq
    rw [if_pos ⟨rfl, hr⟩, if_pos ⟨rfl, hr⟩, h.object, hfg]
    exact .refl _
  · rw [if_neg hq, if_neg hq]
    exact .refl _

/-- A change of the object that only changes the elements. -/
theorem update_eq {f : Object → Object} {after : Array Value}
    (hf : f ⟨.array elements, prototype, names⟩ = ⟨.array after, prototype, names⟩) :
    { m with heap := m.heap.update r f } = m.withElements r after :=
  h.update_congr hf

/-! #### Single changes -/

theorem putOwn (key : String) (v : Value) (hkey : key ≠ "length" ∨ (arrayLength? v).isSome = true) :
    Run.putOwn r key v m = .ok () { m with heap := m.heap.update r (·.putOwn key v) } := by
  have haccepts : (m.heap.object r).acceptsOwn key v = true := by
    rw [h.object]
    simpa [Object.acceptsOwn] using hkey
  change (if (m.heap.object r).acceptsOwn key v = true then _ else _ : Run Unit) m = _
  rw [if_pos haccepts]
  rfl

/-- Writing an index writes an element, and fills up with `undefined` before it. -/
theorem putOwn_index {key : String} {i : Nat} (hi : arrayIndex? key = some i) (v : Value) :
    Run.putOwn r key v m = .ok () (m.withElements r (writtenAt elements i v)) := by
  have hkey : key ≠ "length" := by
    rintro rfl
    cases hi
  rw [h.putOwn key v (.inl hkey), h.update_eq]
  simp [Object.putOwn, hkey, hi]

/-- Writing a name writes a named property. -/
theorem putOwn_name {key : String} (hkey : key ≠ "length") (hi : arrayIndex? key = none)
    (v : Value) :
    Run.putOwn r key v m =
      .ok () { m with heap := m.heap.update r ({ · with properties := names.put key v }) } := by
  rw [h.putOwn key v (.inl hkey)]
  refine congrArg (Ending.ok ()) (h.update_congr ?_)
  simp [Object.putOwn, hkey, hi]

/-- Writing `length` cuts off elements or fills up with `undefined`. -/
theorem putOwn_length {v : Value} {n : Nat} (hn : arrayLength? v = some n) :
    Run.putOwn r "length" v m = .ok () (m.withElements r (resized elements n)) := by
  rw [h.putOwn "length" v (.inr (hn ▸ rfl)), h.update_eq]
  simp [Object.putOwn, hn]

/-- What is no length cannot be written to `length`. -/
theorem putOwn_length_none {v : Value} (hv : arrayLength? v = none) :
    Run.putOwn r "length" v m = .error (.raised .rangeError "Invalid array length") m := by
  have haccepts : (m.heap.object r).acceptsOwn "length" v = false := by
    rw [h.object]
    simp [Object.acceptsOwn, hv]
  change (if (m.heap.object r).acceptsOwn "length" v = true then _ else _ : Run Unit) m = _
  rw [haccepts]
  rfl

/-- A deleted element becomes `undefined`. -/
theorem deleteOwn_index {key : String} {i : Nat} (hi : arrayIndex? key = some i)
    (hlt : i < elements.size) :
    Run.deleteOwn r key m = .ok true (m.withElements r (elements.setIfInBounds i .undefined)) := by
  have hkey : key ≠ "length" := by
    rintro rfl
    cases hi
  have hdelete : { m with heap := m.heap.update r (·.deleteOwn key) } =
      m.withElements r (elements.setIfInBounds i .undefined) :=
    h.update_eq (by simp [Object.deleteOwn, hkey, hi, hlt])
  change Ending.ok (!(m.heap.object r).isPermanent key) _ = _
  rw [hdelete, h.object]
  simp [Object.isPermanent, hkey]

theorem receiver (method : String) : Native.receiver (.object r) method m = .ok r m := by
  have harray : Native.isArray m.heap (.object r) = true := by
    simp [Native.isArray, h.object]
  change (if Native.isArray m.heap (.object r) = true then _ else _ : Run Ref) m = _
  rw [if_pos harray]
  rfl

theorem elements_eq : Native.elements (m.heap.object r) = elements := by
  rw [h.object, Native.elements]

theorem runPush (values : List Value) :
    Native.runPush (.object r) values m =
      .ok (.number (Float.ofNat (elements.size + values.length)))
        (m.withElements r (elements ++ values.toArray)) := by
  have hpush : (values.foldl Array.push elements) = elements ++ values.toArray := by
    simp
  have hafter :
      { m with heap := m.heap.update r (Native.changeElements (values.foldl Array.push ·)) } =
      m.withElements r (elements ++ values.toArray) :=
    h.update_eq (by simp [Native.changeElements, hpush])
  change Exec.andThen (Native.receiver (.object r) "push") _ m = _
  rw [Exec.andThen, h.receiver]
  change Ending.ok (Value.number (Float.ofNat (Native.elements
    (({ m with heap := m.heap.update r _ } : Machine).heap.object r)).size)) _ = _
  rw [hafter, (h.withElements _).elements_eq, Array.size_append]
  rfl

theorem runPop :
    Native.runPop (.object r) m = .ok (elements.back?.getD .undefined)
      (m.withElements r elements.pop) := by
  have hafter : { m with heap := m.heap.update r (Native.changeElements Array.pop) } =
      m.withElements r elements.pop :=
    h.update_eq (by simp [Native.changeElements])
  change Exec.andThen (Native.receiver (.object r) "pop") _ m = _
  rw [Exec.andThen, h.receiver]
  change Ending.ok ((Native.elements (m.heap.object r)).back?.getD .undefined) _ = _
  rw [hafter, h.elements_eq]

/-! #### Any changes -/

/-- A named property under a key that is no index and not `length`. -/
theorem withNames {key : String} (hkey : key ≠ "length") (hi : arrayIndex? key = none) (v : Value) :
    Machine.DenseAt { m with heap := m.heap.update r ({ · with properties := names.put key v }) } r
      prototype elements (names.put key v) := by
  refine ⟨h.object_update _, fun k hk => ?_⟩
  rw [names.keys_put] at hk
  split at hk
  · exact h.apart k hk
  · rcases List.mem_append.mp hk with hk | hk
    · exact h.apart k hk
    · exact List.mem_singleton.mp hk ▸ ⟨hkey, hi⟩

/-- A named property that is deleted. -/
theorem deleteOwn_name {key : String} (hkey : key ≠ "length")
    (hi : ∀ i, arrayIndex? key = some i → elements.size ≤ i) :
    Run.deleteOwn r key m =
      .ok true { m with heap := m.heap.update r ({ · with properties := names.erase key }) } := by
  have hobject : (Object.mk (.array elements) prototype names).deleteOwn key =
      ⟨.array elements, prototype, names.erase key⟩ := by
    unfold Object.deleteOwn
    simp only [beq_iff_eq, hkey, if_false]
    split
    · next i hsome => rw [if_neg (Nat.not_lt.mpr (hi i hsome))]
    · rfl
  have hdelete : { m with heap := m.heap.update r (·.deleteOwn key) } =
      { m with heap := m.heap.update r ({ · with properties := names.erase key }) } :=
    h.update_congr hobject
  change Ending.ok (!(m.heap.object r).isPermanent key) _ = _
  rw [hdelete, h.object]
  simp [Object.isPermanent, hkey]

/-- `length` cannot be deleted. -/
theorem deleteOwn_length : Run.deleteOwn r "length" m = .ok false m := by
  have hdelete : { m with heap := m.heap.update r (·.deleteOwn "length") } =
      m.withElements r elements :=
    h.update_eq (by simp [Object.deleteOwn])
  change Ending.ok (!(m.heap.object r).isPermanent "length") _ = _
  rw [hdelete, h.withElements_self, h.object]
  simp [Object.isPermanent]

theorem eraseName (key : String) :
    Machine.DenseAt { m with heap := m.heap.update r ({ · with properties := names.erase key }) } r
      prototype elements (names.erase key) := by
  refine ⟨h.object_update _, fun k hk => ?_⟩
  rw [names.keys_erase] at hk
  exact h.apart k (List.mem_of_mem_filter hk)

/-- One change of an array. -/
theorem change (c : ArrayChange) : ∃ after left, (c.apply r m).DenseAt r prototype after left := by
  unfold ArrayChange.apply
  cases c with
  | put key v =>
    change ∃ after left, ((Exec.andThen (Run.putOwn r key v) _ m).state?.getD m).DenseAt r
      prototype after left
    unfold Exec.andThen
    by_cases hkey : key = "length"
    · subst hkey
      cases hn : arrayLength? v with
      | some n =>
        rw [h.putOwn_length hn]
        exact ⟨_, _, h.withElements _⟩
      | none =>
        rw [h.putOwn_length_none hn]
        exact ⟨_, _, h⟩
    · cases hi : arrayIndex? key with
      | some i =>
        rw [h.putOwn_index hi]
        exact ⟨_, _, h.withElements _⟩
      | none =>
        rw [h.putOwn_name hkey hi]
        exact ⟨_, _, h.withNames hkey hi v⟩
  | delete key =>
    have hrun : (ArrayChange.delete key).run r m =
        Exec.andThen (Run.deleteOwn r key) (fun deleted => Exec.result (.boolean deleted)) m := rfl
    rw [hrun, Exec.andThen]
    by_cases hkey : key = "length"
    · subst hkey
      rw [h.deleteOwn_length]
      exact ⟨_, _, h⟩
    · by_cases helement : ∃ i, arrayIndex? key = some i ∧ i < elements.size
      · obtain ⟨i, hi, hlt⟩ := helement
        rw [h.deleteOwn_index hi hlt]
        exact ⟨_, _, h.withElements _⟩
      · rw [h.deleteOwn_name hkey fun i hi => Nat.le_of_not_lt fun hlt => helement ⟨i, hi, hlt⟩]
        exact ⟨_, _, h.eraseName key⟩
  | push values =>
    rw [ArrayChange.run, h.runPush]
    exact ⟨_, _, h.withElements _⟩
  | pop =>
    rw [ArrayChange.run, h.runPop]
    exact ⟨_, _, h.withElements _⟩

theorem changes (history : List ArrayChange) :
    ∃ after left, (history.foldl (ArrayChange.apply r) m).DenseAt r prototype after left := by
  induction history generalizing m elements names with
  | nil => exact ⟨_, _, h⟩
  | cons c rest ih =>
    obtain ⟨_, _, hc⟩ := h.change c
    exact ih hc

/-! #### What is read -/

theorem getOwn?_length :
    (m.heap.object r).getOwn? "length" = some (.number (Float.ofNat elements.size)) := by
  rw [h.object, Object.getOwn?]
  rfl

theorem getOwn?_index {key : String} {i : Nat} (hi : arrayIndex? key = some i) :
    (m.heap.object r).getOwn? key = elements[i]? := by
  have hkey : key ≠ "length" := by
    rintro rfl
    cases hi
  simp [h.object, Object.getOwn?, hkey, hi]

theorem getOwn?_name {key : String} (hkey : key ≠ "length") (hi : arrayIndex? key = none) :
    (m.heap.object r).getOwn? key = (names.get? key).map (·.value) := by
  simp [h.object, Object.getOwn?, hkey, hi]

theorem ownKeys :
    (m.heap.object r).ownKeys false = (List.range elements.size).map Nat.repr ++ names.keys := by
  rw [Object.ownKeys_false, h.object, Object.elementCount]

/-- What can be read is what is there. -/
theorem isSome_getOwn? (key : String) :
    ((m.heap.object r).getOwn? key).isSome = (m.heap.object r).hasOwn key := by
  by_cases hkey : key = "length"
  · subst hkey
    rw [h.getOwn?_length, h.object]
    rfl
  · cases hi : arrayIndex? key with
    | some i =>
      have hfree : names.contains key = false := by
        rw [Bool.eq_false_iff, ne_eq, names.contains_eq, ← names.mem_keys]
        intro hmem
        have hnone := (h.apart key hmem).2
        rw [hi] at hnone
        cases hnone
      have helement : elements[i]?.isSome = decide (i < elements.size) := by
        rw [Bool.eq_iff_iff, isSome_getElem?, decide_eq_true_eq]
      rw [h.getOwn?_index hi, h.object, helement]
      simp only [Object.hasOwn, beq_eq_false_iff_ne.mpr hkey, Object.hasElement, hi,
        Object.elementCount, hfree, Bool.false_and, Bool.false_or, Bool.or_false]
      rfl
    | none =>
      rw [h.getOwn?_name hkey hi, h.object, Option.isSome_map]
      simp [Object.hasOwn, Object.hasElement, beq_eq_false_iff_ne.mpr hkey, hi, names.contains_eq]

/-- A value that is pushed and popped leaves everything as it was. -/
theorem push_pop (v : Value) :
    (do let _ ← Native.runPush (.object r) [v]; Native.runPop (.object r)) m = .ok v m := by
  change Exec.andThen (Native.runPush (.object r) [v]) _ m = _
  rw [Exec.andThen, h.runPush]
  dsimp only
  rw [(h.withElements _).runPop, Machine.withElements_withElements]
  simp [h.withElements_self]

end

end Machine.DenseAt

namespace Machine

/-- An array acts as a vector: what is read from it, and what its changes do. -/
structure ActsDense (m : Machine) (r : Ref) (prototype : Option Ref) (elements : Array Value)
    (names : PropertyMap) : Prop extends m.DenseAt r prototype elements names where
  length : (m.heap.object r).getOwn? "length" = some (.number (Float.ofNat elements.size))
  element : ∀ key i, arrayIndex? key = some i → (m.heap.object r).getOwn? key = elements[i]?
  name : ∀ key, key ≠ "length" → arrayIndex? key = none →
    (m.heap.object r).getOwn? key = (names.get? key).map (·.value)
  views : ∀ key, ((m.heap.object r).getOwn? key).isSome = (m.heap.object r).hasOwn key
  keys : (m.heap.object r).ownKeys false = (List.range elements.size).map Nat.repr ++ names.keys
  /-- Writing an element fills up with `undefined` before it. -/
  put : ∀ key i v, arrayIndex? key = some i → ∃ after,
    Run.putOwn r key v m = .ok () (m.withElements r after) ∧
    after.size = max elements.size (i + 1) ∧ after[i]? = some v ∧
    (∀ j < elements.size, j ≠ i → after[j]? = elements[j]?) ∧
    ∀ j < i, elements.size ≤ j → after[j]? = some .undefined
  /-- Writing an integer to `length` cuts off or fills up. -/
  putLength : ∀ x (n : Nat), n < 2 ^ 32 → (Binary64.ofFloat x).value? = some (n : ℚ) → ∃ after,
    Run.putOwn r "length" (.number x) m = .ok () (m.withElements r after) ∧ after.size = n ∧
    (∀ j < n, j < elements.size → after[j]? = elements[j]?) ∧
    ∀ j < n, elements.size ≤ j → after[j]? = some .undefined
  /-- Any other value is rejected. -/
  putLength_other : ∀ v, (¬ ∃ x, v = .number x ∧ ∃ n : Nat, n < 2 ^ 32 ∧
      (Binary64.ofFloat x).value? = some (n : ℚ)) →
    Run.putOwn r "length" v m = .error (.raised .rangeError "Invalid array length") m
  /-- Deleting an element keeps the length. -/
  delete : ∀ key i, arrayIndex? key = some i → i < elements.size → ∃ after,
    Run.deleteOwn r key m = .ok true (m.withElements r after) ∧ after.size = elements.size ∧
    after[i]? = some .undefined ∧ ∀ j, j ≠ i → after[j]? = elements[j]?
  /-- Names are written and deleted beside the elements. -/
  putName : ∀ key v, key ≠ "length" → arrayIndex? key = none → ∃ n,
    Run.putOwn r key v m = .ok () n ∧ n.DenseAt r prototype elements (names.put key v)
  deleteName : ∀ key, key ≠ "length" → (∀ i, arrayIndex? key = some i → elements.size ≤ i) → ∃ n,
    Run.deleteOwn r key m = .ok true n ∧ n.DenseAt r prototype elements (names.erase key)
  deleteLength : Run.deleteOwn r "length" m = .ok false m
  push : ∀ values, Native.runPush (.object r) values m =
    .ok (.number (Float.ofNat (elements.size + values.length)))
      (m.withElements r (elements ++ values.toArray))
  pop : Native.runPop (.object r) m =
    .ok (elements.back?.getD .undefined) (m.withElements r elements.pop)
  push_pop : ∀ v, (do let _ ← Native.runPush (.object r) [v]; Native.runPop (.object r)) m = .ok v m

theorem DenseAt.acts {m : Machine} {r : Ref} {prototype : Option Ref} {elements : Array Value}
    {names : PropertyMap} (h : m.DenseAt r prototype elements names) :
    m.ActsDense r prototype elements names where
  toDenseAt := h
  length := h.getOwn?_length
  element _ _ hi := h.getOwn?_index hi
  name _ hkey hi := h.getOwn?_name hkey hi
  views := h.isSome_getOwn?
  keys := h.ownKeys
  put key i v hi := by
    refine ⟨_, h.putOwn_index hi v, size_writtenAt .., ?_, fun j hlt hj => ?_, fun j hj hle => ?_⟩
    · rw [getElem?_writtenAt, if_pos rfl]
    · rw [getElem?_writtenAt, if_neg hj, Array.getElem?_eq_getElem hlt, Option.getD_some, ite_self]
    · rw [getElem?_writtenAt, if_neg (Nat.ne_of_lt hj), if_pos hj, Array.getElem?_eq_none hle]
      rfl
  putLength x n hn hx := by
    have hlength : arrayLength? (.number x) = some n := arrayLength?_eq_some.mpr ⟨hn, x, rfl, hx⟩
    refine ⟨_, h.putOwn_length hlength, size_resized .., fun j hj hlt => ?_, fun j hj hle => ?_⟩
    · rw [getElem?_resized _ hj, Array.getElem?_eq_getElem hlt, Option.getD_some]
    · rw [getElem?_resized _ hj, Array.getElem?_eq_none hle]
      rfl
  putLength_other v hv := by
    refine h.putOwn_length_none (Option.eq_none_iff_forall_ne_some.mpr fun n hn => hv ?_)
    obtain ⟨hlt, x, hx, hvalue⟩ := arrayLength?_eq_some.mp hn
    exact ⟨x, hx, n, hlt, hvalue⟩
  delete key i hi hlt := by
    refine ⟨_, h.deleteOwn_index hi hlt, Array.size_setIfInBounds .., ?_, fun j hj => ?_⟩
    · rw [Array.getElem?_setIfInBounds_self, if_pos hlt]
    · rw [Array.getElem?_setIfInBounds_ne (Ne.symm hj)]
  putName key v hkey hi := ⟨_, h.putOwn_name hkey hi v, h.withNames hkey hi v⟩
  deleteName key hkey hi := ⟨_, h.deleteOwn_name hkey hi, h.eraseName key⟩
  deleteLength := h.deleteOwn_length
  push := h.runPush
  pop := h.runPop
  push_pop := h.push_pop

/-- An array without named properties under an index or `length` acts as a vector without gaps after
any changes, and still has no such names. -/
theorem arrays_dense {m : Machine} {r : Ref} {prototype : Option Ref} {elements : Array Value}
    {names : PropertyMap} (hobject : m.heap.object r = ⟨.array elements, prototype, names⟩)
    (hnames : ∀ key ∈ names.keys, key ≠ "length" ∧ arrayIndex? key = none)
    (history : List ArrayChange) :
    ∃ after left, (history.foldl (ArrayChange.apply r) m).ActsDense r prototype after left := by
  have hdense : m.DenseAt r prototype elements names := ⟨hobject, hnames⟩
  obtain ⟨after, left, h⟩ := hdense.changes history
  exact ⟨after, left, h.acts⟩

/-- An array with a name, after a write beyond its end, a name, a value that is no length, and
`pop`. -/
theorem arrays_dense_written :
    let o : Object := ⟨.array #[.null], none, ⟨[⟨"x", .null, true⟩]⟩⟩
    let m : Machine := { heap := ⟨#[o]⟩, records := .empty, depth := 0, limit := 0, output := "" }
    m.heap.object 0 = o ∧ (∀ key ∈ o.properties.keys, key ≠ "length" ∧ arrayIndex? key = none) ∧
      ∃ after left, ([.put "3" .null, .put "y" .null, .put "length" .null, .pop, .delete "0"].foldl
        (ArrayChange.apply 0) m).ActsDense 0 none after left ∧ after.size = 3 := by
  intro o m
  have hnames : ∀ key ∈ o.properties.keys, key ≠ "length" ∧ arrayIndex? key = none := by decide
  obtain ⟨after, left, h⟩ := arrays_dense (m := m) (r := 0) rfl hnames
    [.put "3" .null, .put "y" .null, .put "length" .null, .pop, .delete "0"]
  refine ⟨rfl, hnames, after, left, h, ?_⟩
  rw [← h.toDenseAt.elements_eq]
  decide

end Machine

end ScriptEngine
