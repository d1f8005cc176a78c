import ScriptEngine.Proofs.Heap.History
import ScriptEngine.Proofs.Number.Digits
import ScriptEngine.Run.Builtin

/-!
# Views of own properties

Whether an object has a property, what value it has and which keys are listed are decided apart from
each other.  They agree because elements and named properties never share a key: what can be an
element of an array is never named, and the named keys of an arguments object are beyond its
elements.

On strings they do not agree.  A key that is an index beyond the end is written as a named property
and is found there, but it is only read among the elements.

## Main definitions

* `ObjectClass.MayName` : the keys of named properties.
* `Object.Reached` : the objects that scripts can bring about.
* `Object.Coherent` : elements and named properties share no key.
* `Object.Stranded` : a key that an object has without a value.

## Main statements

* `arrayIndex?_repr` : the text of an index stands for it.
* `Object.Reached.coherent` : what scripts do to an object keeps it coherent.
* `Object.views_agree` : the views agree but for stranded keys.
* `Object.stringIndex_stranded` : a string has a key without a value.
-/

namespace ScriptEngine

/-! ### Texts of indices -/

/-- The text of an index stands for it. -/
theorem arrayIndex?_repr {n : Nat} (h : n < 4294967295) : arrayIndex? n.repr = some n := by
  have hdigits : (Nat.toDigits 10 n).all Char.isDigit = true :=
    List.all_eq_true.mpr fun c hc => Nat.isDigit_of_mem_toDigits (by decide) (by decide) hc
  have hlength : (Nat.toDigits 10 n).length ≤ 10 :=
    (Nat.length_toDigits_le_iff (by decide) (by decide)).mpr (by omega)
  have hleading : ¬ ((Nat.toDigits 10 n).length > 1 ∧ (Nat.toDigits 10 n).head? = some '0') := by
    rintro ⟨hlong, hzero⟩
    rcases Nat.eq_zero_or_pos n with rfl | hpos
    · exact absurd hlong (by decide)
    · exact head?_toDigits hpos hzero
  unfold arrayIndex?
  rw [Nat.toList_repr]
  dsimp only
  rw [if_neg (by simp [hdigits, Nat.toDigits_ne_nil]), if_neg (by simpa using hleading),
    if_neg (by omega), digitsValue_toDigits, if_pos h]

/-! ### Keys of named properties -/

/-- The keys that named properties of objects of a class have besides the elements. -/
def ObjectClass.MayName (key : String) : ObjectClass → Prop
  | .array _ => key ≠ "length" ∧ arrayIndex? key = none
  | .arguments _ length => ∀ i, arrayIndex? key = some i → length ≤ i
  | .string s => key ≠ "length" ∧ ∀ i, arrayIndex? key = some i → Text.length16 s ≤ i
  | _ => True

/-- All elements of an arguments object have a value. -/
def ObjectClass.Backed : ObjectClass → Prop
  | .arguments values length => length ≤ values.size
  | _ => True

namespace Object

/-- The objects that scripts can bring about: they are made, get properties under names that are no
elements, and are changed by scripts. -/
inductive Reached : Object → Prop
  | made {cls : ObjectClass} (prototype : Option Ref) (h : cls.Backed) :
    Reached (.plain cls prototype)
  | defined {o : Object} (h : Reached o) {key : String} (hkey : o.cls.MayName key) (v : Value)
      (enumerable : Bool) : Reached (o.defineOwn key v enumerable)
  | put {o : Object} (h : Reached o) (key : String) (v : Value) : Reached (o.putOwn key v)
  | deleted {o : Object} (h : Reached o) (key : String) : Reached (o.deleteOwn key)
  | pushed {o : Object} (h : Reached o) (values : List Value) :
      Reached (Native.changeElements (values.foldl Array.push ·) o)
  | popped {o : Object} (h : Reached o) : Reached (Native.changeElements Array.pop o)
  | parameter {o : Object} (h : Reached o) (index : Nat) (v : Value) :
    Reached (o.setParameter index v)

/-- Elements and named properties share no key. -/
structure Coherent (o : Object) : Prop where
  nodup : o.properties.keys.Nodup
  names : ∀ key ∈ o.properties.keys, o.cls.MayName key
  backed : o.cls.Backed

/-- A key that an object has although no value can be read: an index beyond the end of a string. -/
def Stranded (o : Object) (key : String) : Prop :=
  ∃ s i, o.cls = .string s ∧ arrayIndex? key = some i ∧ Text.length16 s ≤ i ∧
    key ∈ o.properties.keys

/-! ### Changes -/

theorem size_padded (values : Array Value) (n : Nat) :
    (padded values n).size = max values.size n := by
  simp only [padded, Array.size_append, Array.size_replicate]
  omega

theorem getElem?_padded (values : Array Value) (n j : Nat) :
    (padded values n)[j]? = if j < n then some (values[j]?.getD .undefined) else values[j]? := by
  rw [padded, Array.getElem?_append, Array.getElem?_replicate]
  by_cases hj : j < values.size
  · simp [hj]
  · rw [if_neg hj, Array.getElem?_eq_none (Nat.le_of_not_lt hj)]
    refine ite_congr (propext (by omega)) (fun _ => rfl) fun _ => rfl

theorem size_writtenAt (values : Array Value) (i : Nat) (v : Value) :
    (writtenAt values i v).size = max values.size (i + 1) := by
  unfold writtenAt
  split
  · rw [Array.size_setIfInBounds]
    omega
  · rw [Array.size_push, size_padded]
    omega

theorem getElem?_writtenAt (values : Array Value) (i j : Nat) (v : Value) :
    (writtenAt values i v)[j]? =
      if j = i then some v
      else if j < i then some (values[j]?.getD .undefined) else values[j]? := by
  unfold writtenAt
  split
  · next h =>
    rw [Array.getElem?_setIfInBounds]
    by_cases hj : i = j
    · simp [← hj, h]
    · rw [if_neg hj, if_neg (Ne.symm hj)]
      split
      · next hlt => rw [Array.getElem?_eq_getElem (Nat.lt_trans hlt h), Option.getD_some]
      · rfl
  · next h =>
    rw [Array.getElem?_push, size_padded, Nat.max_eq_right (Nat.le_of_not_lt h), getElem?_padded]

namespace Coherent

variable {cls cls' : ObjectClass} {prototype : Option Ref} {properties : PropertyMap} {key : String}

/-- Elements may change as long as the same keys may be named. -/
theorem withClass (h : Coherent ⟨cls, prototype, properties⟩)
    (hnames : ∀ key, cls.MayName key → cls'.MayName key) (hbacked : cls'.Backed) :
    Coherent ⟨cls', prototype, properties⟩ :=
  ⟨h.nodup, fun key hkey => hnames key (h.names key hkey), hbacked⟩

theorem put (h : Coherent ⟨cls, prototype, properties⟩) (hkey : cls.MayName key) (v : Value) :
    Coherent ⟨cls, prototype, properties.put key v⟩ := by
  refine ⟨PropertyChange.nodup_applyNamed h.nodup (.put key v), fun k hk => ?_, h.backed⟩
  dsimp only at hk
  rw [properties.keys_put] at hk
  split at hk
  · exact h.names k hk
  · rcases List.mem_append.mp hk with hk | hk
    · exact h.names k hk
    · exact List.mem_singleton.mp hk ▸ hkey

theorem define (h : Coherent ⟨cls, prototype, properties⟩) (hkey : cls.MayName key) (v : Value)
    (enumerable : Bool) : Coherent ⟨cls, prototype, properties.define key v enumerable⟩ := by
  have hput := h.put hkey v
  have heq : (properties.define key v enumerable).keys = (properties.put key v).keys :=
    (properties.keys_define v enumerable).trans (properties.keys_put v).symm
  exact ⟨heq ▸ hput.nodup, heq ▸ hput.names, h.backed⟩

theorem erase (h : Coherent ⟨cls, prototype, properties⟩) (key : String) :
    Coherent ⟨cls, prototype, properties.erase key⟩ := by
  have heq : (properties.erase key).keys = properties.keys.filter (· != key) :=
    properties.keys_erase
  refine ⟨heq ▸ h.nodup.sublist List.filter_sublist, fun k hk => ?_, h.backed⟩
  exact h.names k (List.mem_of_mem_filter (heq ▸ hk))

theorem putOwn {o : Object} (h : o.Coherent) (key : String) (v : Value) :
    (o.putOwn key v).Coherent := by
  obtain ⟨cls, prototype, properties⟩ := o
  cases cls with
  | array elements =>
    unfold Object.putOwn
    dsimp only
    by_cases hkey : key = "length"
    · rw [if_pos (beq_iff_eq.mpr hkey)]
      cases arrayLength? v with
      | some n => exact h.withClass (fun _ hk => hk) trivial
      | none => exact h
    · rw [if_neg (by simpa using hkey)]
      cases hi : arrayIndex? key with
      | some i => exact h.withClass (fun _ hk => hk) trivial
      | none => exact h.put ⟨hkey, hi⟩ v
  | arguments values length =>
    unfold Object.putOwn
    dsimp only
    cases hi : arrayIndex? key with
    | some i =>
      dsimp only
      split
      · refine h.withClass (fun _ hk => hk) ?_
        have hbacked : length ≤ values.size := h.backed
        simpa [ObjectClass.Backed] using hbacked
      · next hlt =>
        refine h.put (fun j hj => ?_) v
        cases hi.symm.trans hj
        exact Nat.le_of_not_lt hlt
    | none => exact h.put (fun j hj => by rw [hi] at hj; cases hj) v
  | string s =>
    unfold Object.putOwn
    dsimp only
    by_cases hkey : key = "length"
    · rw [if_pos (beq_iff_eq.mpr hkey)]
      exact h
    · rw [if_neg (by simpa using hkey)]
      cases hi : arrayIndex? key with
      | some i =>
        dsimp only
        split
        · exact h
        · next hlt =>
          refine h.put ⟨hkey, fun j hj => ?_⟩ v
          cases hi.symm.trans hj
          exact Nat.le_of_not_lt hlt
      | none => exact h.put ⟨hkey, fun j hj => by rw [hi] at hj; cases hj⟩ v
  | ordinary | function | error | boolean | number | regularExpression => exact h.put trivial v

theorem deleteOwn {o : Object} (h : o.Coherent) (key : String) : (o.deleteOwn key).Coherent := by
  obtain ⟨cls, prototype, properties⟩ := o
  cases cls with
  | array elements =>
    unfold Object.deleteOwn
    dsimp only
    split
    · exact h
    · cases arrayIndex? key with
      | some i =>
        dsimp only
        split
        · exact h.withClass (fun _ hk => hk) trivial
        · exact h.erase key
      | none => exact h.erase key
  | arguments values length =>
    unfold Object.deleteOwn
    dsimp only
    cases arrayIndex? key with
    | some i =>
      dsimp only
      split
      · refine h.withClass (fun _ hk => hk) ?_
        have hbacked : length ≤ values.size := h.backed
        simpa [ObjectClass.Backed] using hbacked
      · exact h.erase key
    | none => exact h.erase key
  | string s =>
    unfold Object.deleteOwn
    dsimp only
    split
    · exact h
    · exact h.erase key
  | ordinary | function | error | boolean | number | regularExpression => exact h.erase key

theorem changeElements {o : Object} (h : o.Coherent) (f : Array Value → Array Value) :
    (Native.changeElements f o).Coherent := by
  obtain ⟨cls, prototype, properties⟩ := o
  cases cls with
  | array elements => exact h.withClass (fun _ hk => hk) trivial
  | _ => exact h

theorem setParameter {o : Object} (h : o.Coherent) (index : Nat) (v : Value) :
    (o.setParameter index v).Coherent := by
  obtain ⟨cls, prototype, properties⟩ := o
  cases cls with
  | arguments values length =>
    have hsize : values.size ≤ (writtenAt values index v).size := by
      rw [size_writtenAt]
      exact Nat.le_max_left ..
    exact h.withClass (fun _ hk => hk) (Nat.le_trans h.backed hsize)
  | _ => exact h

end Coherent

/-- What scripts do to an object keeps it coherent. -/
theorem Reached.coherent {o : Object} (h : o.Reached) : o.Coherent := by
  induction h with
  | made prototype h => exact ⟨List.nodup_nil, fun _ hkey => absurd hkey List.not_mem_nil, h⟩
  | defined _ hkey v enumerable ih => exact ih.define hkey v enumerable
  | put _ key v ih => exact ih.putOwn key v
  | deleted _ key ih => exact ih.deleteOwn key
  | pushed _ values ih => exact ih.changeElements _
  | popped _ ih => exact ih.changeElements _
  | parameter _ index v ih => exact ih.setParameter index v

/-! ### Views -/

theorem hasOwn_eq (o : Object) (key : String) :
    o.hasOwn key = true ↔
      key = "length" ∧ o.hasLength = true ∨ o.hasElement key = true ∨ key ∈ o.properties.keys := by
  simp only [hasOwn, Bool.or_eq_true, Bool.and_eq_true, beq_iff_eq, or_assoc,
    PropertyMap.contains_eq, PropertyMap.mem_keys]

theorem named_isSome (m : PropertyMap) (key : String) :
    ((m.get? key).map (·.value)).isSome = true ↔ key ∈ m.keys := by
  rw [Option.isSome_map, m.mem_keys]

/-- Elements are found under the texts of their indices. -/
theorem hasElement_repr {o : Object} {i : Nat} (hi : i < o.elementCount) (hsize : i < 4294967295) :
    o.hasElement i.repr = true := by
  obtain ⟨cls, prototype, properties⟩ := o
  cases cls with
  | array | arguments | string => simpa [hasElement, arrayIndex?_repr hsize] using hi
  | ordinary | function | error | boolean | number | regularExpression =>
    exact absurd hi (Nat.not_lt_zero i)

/-- The keys that are listed are those that an object has, apart from `length`. -/
theorem hasOwn_of_mem_ownKeys {o : Object} (hsize : o.elementCount ≤ 4294967295) {key : String}
    (hkey : key ∈ o.ownKeys false) : o.hasOwn key = true := by
  rw [ownKeys_false] at hkey
  rw [hasOwn_eq]
  rcases List.mem_append.mp hkey with hkey | hkey
  · obtain ⟨i, hi, rfl⟩ := List.mem_map.mp hkey
    have hi := List.mem_range.mp hi
    exact .inr (.inl (hasElement_repr hi (Nat.lt_of_lt_of_le hi hsize)))
  · exact .inr (.inr hkey)

theorem isSome_unitAt? (s : String) (i : Nat) :
    (Text.unitAt? s i).isSome = true ↔ i < Text.length16 s := by
  have hlength (cs : List Char) (n : Nat) :
      cs.foldl (fun n c => n + (Text.charUnits c).length) n = n +
        (cs.flatMap Text.charUnits).length := by
    induction cs generalizing n with
    | nil => rfl
    | cons c rest ih => simp [ih, Nat.add_assoc]
  rw [Text.unitAt?, Option.isSome_map, Text.length16, hlength, Nat.zero_add]
  simp [Text.units16]

namespace Coherent

variable {o : Object} (h : o.Coherent)
include h

/-- A value can be read under just those keys that an object has, stranded ones apart. -/
theorem isSome_getOwn? (key : String) :
    (o.getOwn? key).isSome = true ↔ o.hasOwn key = true ∧ ¬ o.Stranded key := by
  rw [hasOwn_eq]
  obtain ⟨cls, prototype, properties⟩ := o
  have hnamed := named_isSome properties key
  have hnames : key ∈ properties.keys → cls.MayName key := h.names key
  cases cls with
  | array elements =>
    have hwhole : ¬ Stranded ⟨.array elements, prototype, properties⟩ key := by
      rintro ⟨_, _, hs, _⟩
      cases hs
    rw [and_iff_left hwhole]
    unfold Object.getOwn? Object.hasElement Object.hasLength Object.elementCount
    dsimp only
    by_cases hkey : key = "length"
    · simp [hkey]
    · rw [if_neg (by simpa using hkey)]
      cases hi : arrayIndex? key with
      | some i =>
        have hfree : key ∉ properties.keys := fun hk => by
          have hnone := (hnames hk).2
          rw [hi] at hnone
          cases hnone
        simp [hkey, hfree]
      | none => simpa [hkey] using hnamed
  | arguments values length =>
    have hwhole : ¬ Stranded ⟨.arguments values length, prototype, properties⟩ key := by
      rintro ⟨_, _, hs, _⟩
      cases hs
    have hbacked : length ≤ values.size := h.backed
    rw [and_iff_left hwhole]
    unfold Object.getOwn? Object.hasElement Object.hasLength Object.elementCount
    dsimp only
    cases hi : arrayIndex? key with
    | some i =>
      dsimp only
      split
      · next hlt => simp [hlt, Nat.lt_of_lt_of_le hlt hbacked]
      · next hlt => simpa [hlt] using hnamed
    | none => simpa using hnamed
  | string s =>
    unfold Object.getOwn? Object.hasElement Object.hasLength Object.elementCount Stranded
    dsimp only
    by_cases hkey : key = "length"
    · have hindex : arrayIndex? "length" = none := by decide
      simp [hkey, hindex]
    · rw [if_neg (by simpa using hkey)]
      cases hi : arrayIndex? key with
      | some i =>
        rw [Option.isSome_map, isSome_unitAt?]
        simp only [hkey, decide_eq_true_eq]
        grind
      | none => simpa [hkey] using hnamed
  | ordinary | function | error | boolean | number | regularExpression =>
    simpa [Object.getOwn?, Object.hasElement, Object.hasLength, Stranded] using hnamed

/-- No element has the key of a named property. -/
theorem hasElement_of_named {key : String} (hkey : key ∈ o.properties.keys) :
    o.hasElement key = false := by
  have hname := h.names key hkey
  obtain ⟨cls, prototype, properties⟩ := o
  unfold hasElement elementCount
  cases cls with
  | array elements =>
    rw [hname.2]
  | arguments values length =>
    dsimp only
    cases hi : arrayIndex? key with
    | some i => simpa using hname i hi
    | none => rfl
  | string s =>
    dsimp only
    cases hi : arrayIndex? key with
    | some i => simpa using hname.2 i hi
    | none => rfl
  | ordinary | function | error | boolean | number | regularExpression => rfl

/-- No key is listed twice. -/
theorem nodup_ownKeys (hsize : o.elementCount ≤ 4294967295) : (o.ownKeys false).Nodup := by
  rw [ownKeys_false, List.nodup_append]
  refine ⟨?_, h.nodup, fun key hkey other hother heq => ?_⟩
  · rw [List.nodup_iff_pairwise_ne, List.pairwise_map]
    exact List.pairwise_lt_range.imp fun hlt heq => Nat.ne_of_lt hlt (repr_inj heq)
  · subst heq
    obtain ⟨i, hi, rfl⟩ := List.mem_map.mp hkey
    have hi := List.mem_range.mp hi
    have helement := hasElement_repr hi (Nat.lt_of_lt_of_le hi hsize)
    rw [h.hasElement_of_named hother] at helement
    cases helement

/-- A key that is created by a write can be read, unless it is stranded. -/
theorem getOwn?_putOwn {key : String} {v : Value} (hnew : o.hasOwn key = false)
    (hstranded : ¬ (o.putOwn key v).Stranded key) : (o.putOwn key v).getOwn? key = some v := by
  have hnew : ¬ (key = "length" ∧ o.hasLength = true ∨ o.hasElement key = true ∨
      key ∈ o.properties.keys) := fun hown => by
    rw [(hasOwn_eq o key).mpr hown] at hnew
    cases hnew
  obtain ⟨hlength, hnew⟩ := not_or.mp hnew
  obtain ⟨helement, hnew⟩ := not_or.mp hnew
  obtain ⟨cls, prototype, properties⟩ := o
  have hput : ((properties.put key v).get? key).map (·.value) = some v := by
    rw [properties.get?_put_self]
    cases properties.get? key <;> rfl
  cases cls with
  | array elements =>
    have hkey : key ≠ "length" := fun heq => hlength ⟨heq, rfl⟩
    unfold Object.putOwn Object.getOwn?
    simp only [beq_iff_eq, hkey, if_false]
    cases hi : arrayIndex? key with
    | some i => exact (getElem?_writtenAt elements i i v).trans (if_pos rfl)
    | none => exact hput
  | arguments values length =>
    unfold hasElement elementCount at helement
    unfold Object.putOwn Object.getOwn?
    dsimp only at helement ⊢
    cases hi : arrayIndex? key with
    | some i =>
      have hout : ¬ i < length := by simpa [hi] using helement
      simpa [hout] using hput
    | none => exact hput
  | string s =>
    have hkey : key ≠ "length" := fun heq => hlength ⟨heq, rfl⟩
    unfold hasElement elementCount at helement
    unfold Object.putOwn Object.getOwn? at *
    simp only [beq_iff_eq, hkey, if_false] at helement hstranded ⊢
    cases hi : arrayIndex? key with
    | some i =>
      have hout : ¬ i < Text.length16 s := by simpa [hi] using helement
      refine absurd ⟨s, i, ?_, hi, Nat.le_of_not_lt hout, ?_⟩ hstranded
      · simp [hi, hout]
      · simp only [hi, hout, if_false]
        rw [properties.keys_put]
        split
        · assumption
        · simp
    | none => exact hput
  | ordinary | function | error | boolean | number | regularExpression => exact hput

end Coherent

/-- The views of an object's own properties agree, but for stranded keys: those are there and
listed, and have no value.  Listings have no key twice as long as the elements of an object have
indices. -/
theorem views_agree {o : Object} (h : o.Reached) :
    (∀ key, o.hasOwn key = true ↔ (o.getOwn? key).isSome = true ∨ o.Stranded key) ∧
    (∀ key, o.Stranded key → o.getOwn? key = none) ∧
    (o.elementCount ≤ 4294967295 → (o.ownKeys false).Nodup ∧
      ∀ key ∈ o.ownKeys false, (o.getOwn? key).isSome = true ∨ o.Stranded key) ∧
    ∀ key v, o.hasOwn key = false →
      (o.putOwn key v).getOwn? key = some v ∨ (o.putOwn key v).Stranded key := by
  have hc := h.coherent
  have hstranded {key : String} (hkey : o.Stranded key) : o.hasOwn key = true := by
    obtain ⟨_, _, _, _, _, hmem⟩ := hkey
    exact (hasOwn_eq o key).mpr (.inr (.inr hmem))
  have hiff (key : String) : o.hasOwn key = true ↔ (o.getOwn? key).isSome = true ∨
      o.Stranded key := by
    rw [hc.isSome_getOwn?]
    by_cases hkey : o.Stranded key
    · simp [hkey, hstranded hkey]
    · simp [hkey]
  refine ⟨hiff, fun key hkey => ?_, fun hsize => ⟨hc.nodup_ownKeys hsize, fun key hkey => ?_⟩,
    fun key v hnew => ?_⟩
  · exact Option.not_isSome_iff_eq_none.mp fun hsome => ((hc.isSome_getOwn? key).mp hsome).2 hkey
  · exact (hiff key).mp (hasOwn_of_mem_ownKeys hsize hkey)
  · by_cases hkey : (o.putOwn key v).Stranded key
    · exact .inr hkey
    · exact .inl (hc.getOwn?_putOwn hnew hkey)

/-- An array of which an element beyond the end was written. -/
theorem views_agree_array :
    let o := (Object.plain (.array #[.null]) none).putOwn "2" .null
    o.Reached ∧ (o.hasOwn "1" = true ↔ (o.getOwn? "1").isSome = true ∨ o.Stranded "1") ∧
      o.elementCount ≤ 4294967295 ∧ (o.ownKeys false).Nodup := by
  intro o
  have hreached : o.Reached :=
    .put (.made none (show ObjectClass.Backed (.array #[.null]) from trivial)) "2" .null
  have hsize : o.elementCount ≤ 4294967295 := by decide
  have hviews := views_agree hreached
  exact ⟨hreached, hviews.1 "1", hsize, (hviews.2.2.1 hsize).1⟩

/-- A string has a key without a value once an index beyond its end was written. -/
theorem stringIndex_stranded :
    let o := (Object.plain (.string "ab") none).putOwn "5" (.number 1)
    o.Reached ∧ o.hasOwn "5" = true ∧ o.getOwn? "5" = none ∧ "5" ∈ o.ownKeys false := by
  have hbacked : ObjectClass.Backed (.string "ab") := trivial
  exact ⟨.put (.made none hbacked) "5" (.number 1), by decide, by decide, by decide⟩

end Object

end ScriptEngine
