import ScriptEngine.Proofs.Heap.Views
import ScriptEngine.Proofs.Number.RoundTrip
import ScriptEngine.Run.Evaluate

/-!
# Numbers as indices

The key of an element is the text of its index, and a number is a key through its text.  So a number
addresses an element exactly if it is the index, and no other key does.

## Main definitions

* `Object.Addresses` : what reading, writing and deleting do at the key of an element.

## Main statements

* `arrayIndex?_eq_some` : the keys of elements are the texts of their indices.
* `numberText_eq_repr_iff` : a number has the text of a natural number if it is this number.
* `numericIndex` : numbers address exactly the elements of arrays.
-/

namespace ScriptEngine

open Binary64 Numeral

/-! ### Texts of indices -/

/-- The keys of elements are the texts of their indices. -/
theorem arrayIndex?_eq_some {key : String} {i : Nat} :
    arrayIndex? key = some i ↔ key = i.repr ∧ i < 4294967295 := by
  constructor
  · intro h
    unfold arrayIndex? at h
    dsimp only at h
    split at h
    · cases h
    · next hdigits =>
      split at h
      · cases h
      · next hleading =>
        split at h
        · cases h
        · split at h
          · next hlt =>
            obtain rfl := Option.some_inj.mp h
            rw [Bool.or_eq_true, not_or, List.isEmpty_iff, Bool.not_eq_true', Bool.not_eq_false,
              List.all_eq_true] at hdigits
            have htext := toDigits_digitsValue hdigits.2 hdigits.1 fun hlong hzero =>
              hleading (by simp [hlong, hzero])
            exact ⟨String.toList_injective (by rw [Nat.toList_repr, htext]), hlt⟩
          · cases h
  · rintro ⟨rfl, hlt⟩
    exact arrayIndex?_repr hlt

/-! ### Natural numbers as doubles -/

/-- A double rounds to itself. -/
theorem Binary64.rounds_self (m : Nat) (q : Int) : Rounds m q (m * 2 ^ q) := by
  have hpow : (0 : ℚ) < 2 ^ q := zpow_pos (by norm_num) q
  have hquarters : (0 : ℚ) < Rounding.quarters m q := by
    unfold Rounding.quarters
    split <;> norm_num
  have hlow : (m - Rounding.quarters m q / 4) * 2 ^ q < (m : ℚ) * 2 ^ q :=
    mul_lt_mul_of_pos_right (by linarith) hpow
  have hhigh : (m : ℚ) * 2 ^ q < (m + 1 / 2) * 2 ^ q := mul_lt_mul_of_pos_right (by linarith) hpow
  exact ⟨hlow.le, hhigh.le, fun _ => ⟨hlow, hhigh⟩⟩

/-- A natural number below `2 ^ 53` is a double. -/
theorem exists_isDouble {i : Nat} (hi : 0 < i) (hlt : i < 2 ^ 53) :
    ∃ m q, 0 < m ∧ IsDouble m q ∧ (m : ℚ) * 2 ^ q = i := by
  -- The significand has its first digit in the highest place.
  obtain ⟨s, hs⟩ := Nat.exists_eq_add_of_le (Nat.le_of_lt_succ ((Nat.log2_lt hi.ne').mpr hlt))
  have hlow : 2 ^ i.log2 * 2 ^ s ≤ i * 2 ^ s := Nat.mul_le_mul_right _ (Nat.log2_self_le hi.ne')
  have hhigh : i * 2 ^ s < 2 ^ (i.log2 + 1) * 2 ^ s :=
    Nat.mul_lt_mul_of_pos_right Nat.lt_log2_self (Nat.pow_pos (by decide))
  rw [← Nat.pow_add, ← hs] at hlow
  rw [← Nat.pow_add, show i.log2 + 1 + s = 53 by omega] at hhigh
  refine ⟨i * 2 ^ s, -(s : Int), by omega, ⟨hhigh, by omega, by omega, .inl hlow⟩, ?_⟩
  push_cast
  rw [zpow_neg, zpow_natCast, mul_assoc, mul_inv_cancel₀ (by positivity), mul_one]

/-- The text of a natural number is converted to this number. -/
theorem value_stringToNumber_repr {i : Nat} (hlt : i < 2 ^ 53) :
    (ofFloat (stringToNumber i.repr)).value? = some (i : ℚ) := by
  rcases Nat.eq_zero_or_pos i with rfl | hi
  · have hzero : ofFloat (stringToNumber (0 : Nat).repr) = .finite false 0 (-1074) := by decide
    simp [hzero, value?]
  · obtain ⟨m, q, hm, hdouble, hvalue⟩ := exists_isDouble hi hlt
    have hdenotes := Denotes.intro (digits_toDigits i) .none (.inl Nat.toDigits_ne_nil) .none
    have htext : DenotesValue (Nat.toDigits 10 i) (m * 2 ^ q) := by
      refine hdenotes.toValue (by simp) ?_
      rw [hvalue, Decimal.value, List.append_nil, digitsValue_toDigits]
      simp
    obtain ⟨d, hd, hparts⟩ := htext.exists_toFloat hdouble hm (rounds_self m q)
    have hfloat : stringToNumber i.repr = d.toFloat := by
      rw [← hd.stringToNumber]
      exact congrArg stringToNumber (String.toList_injective (by simp))
    rw [hfloat, hparts, value?]
    simpa using hvalue

/-- A number has the text of a natural number below `2 ^ 53` exactly if it is this number. -/
theorem numberText_eq_repr_iff {x : Float} {i : Nat} (hlt : i < 2 ^ 53) :
    numberText x = i.repr ↔ (ofFloat x).value? = some (i : ℚ) := by
  have hzero (negative : Bool) : numberText (if negative then -0.0 else 0.0) = (0 : Nat).repr := by
    cases negative <;> decide
  constructor
  · intro h
    by_cases hx : x = -0.0
    · -- The text of the negative zero is that of zero.
      subst hx
      obtain rfl : i = 0 := repr_inj (h.symm.trans (hzero true))
      have hparts : ofFloat (-0.0) = .finite true 0 (-1074) := by decide
      simp [hparts, value?]
    · rw [← stringToNumber_numberText hx, h]
      exact value_stringToNumber_repr hlt
  · intro h
    cases hparts : ofFloat x with
    | nan | infinite => simp [hparts, value?] at h
    | finite negative m q =>
      rw [hparts] at h
      rcases Nat.eq_zero_or_pos m with rfl | hm
      · obtain rfl : i = 0 := by simpa [value?, eq_comm] using h
        rw [eq_zero_of_finite hparts, hzero]
      · obtain ⟨n, hn, hvalue, hi⟩ :=
          integerPart?_signed hm (integerPart?_eq_some.mpr (by exact_mod_cast h))
        cases negative with
        | true =>
          rw [if_pos rfl] at hi
          omega
        | false =>
          obtain rfl : i = n := Int.ofNat_inj.mp (hi.trans (if_neg Bool.false_ne_true))
          have hshortest := value_shortest_of_integer (isDouble_of_ofFloat hparts) hm hvalue hlt
          exact ((numberText_eq_integer_iff hparts hm hn).mpr ⟨hshortest, by omega⟩).symm

/-- As a key a number stands for the index that it is, and for no index if it is none. -/
theorem arrayIndex?_numberText {x : Float} {i : Nat} : arrayIndex? (numberText x) = some i ↔
    (ofFloat x).value? = some (i : ℚ) ∧ i < 4294967295 := by
  rw [arrayIndex?_eq_some]
  exact and_congr_left fun hlt => numberText_eq_repr_iff (by omega)

/-! ### Elements -/

namespace Object

/-- What reading, writing and deleting do at the key of an element: no named property is read,
written or deleted. -/
structure Addresses (o : Object) (elements : Array Value) (key : String) (i : Nat) : Prop where
  get : o.getOwn? key = elements[i]?
  has : o.hasOwn key = decide (i < elements.size)
  put : ∀ v, o.putOwn key v = { o with cls := .array (writtenAt elements i v) }
  delete : o.deleteOwn key = { o with cls := .array (elements.setIfInBounds i .undefined) }

/-- The keys that are indices address the elements of an array. -/
theorem Reached.addresses {o : Object} (h : o.Reached) {elements : Array Value}
    (hcls : o.cls = .array elements) {key : String} {i : Nat} (hi : arrayIndex? key = some i) :
    o.Addresses elements key i := by
  have hcoherent := h.coherent
  obtain ⟨cls, prototype, properties⟩ := o
  obtain rfl : cls = .array elements := hcls
  have hkey : key ≠ "length" := by
    rintro rfl
    cases hi
  have hfree : key ∉ properties.keys := fun hmem => by
    have hnone := (hcoherent.names key hmem).2
    rw [hi] at hnone
    cases hnone
  constructor
  · simp [getOwn?, hkey, hi]
  · have hcontains : properties.contains key = false := by
      rw [Bool.eq_false_iff, ne_eq, properties.contains_eq, ← properties.mem_keys]
      exact hfree
    simp only [hasOwn, beq_eq_false_iff_ne.mpr hkey, hasElement, hi, elementCount, hcontains,
      Bool.false_and, Bool.false_or, Bool.or_false]
    rfl
  · intro v
    simp [putOwn, hkey, hi]
  · unfold deleteOwn
    simp only [hi, beq_iff_eq, hkey, if_false]
    split
    · rfl
    · next hout =>
      have herase : properties.erase key = properties := by
        refine congrArg PropertyMap.mk (List.filter_eq_self.mpr fun e he => ?_)
        have hne : e.key ≠ key := fun heq => hfree (heq ▸ List.mem_map_of_mem he)
        simpa using hne
      rw [herase, Array.setIfInBounds_eq_of_size_le (Nat.le_of_not_lt hout)]

end Object

/-- Numbers address exactly the elements of arrays.  The text of a number stands for an index if the
number is this index, and a key stands for an index if it is its text, so that no two keys stand for
one index.  A number is the key of its text, and at an index only elements are read, written and
deleted. -/
theorem numericIndex (x : Float) (key : String) (i : Nat) :
    (arrayIndex? (numberText x) = some i ↔ (ofFloat x).value? = some (i : ℚ) ∧ i < 2 ^ 32 - 1) ∧
    (arrayIndex? key = some i ↔ key = i.repr ∧ i < 2 ^ 32 - 1) ∧
    (∀ other, arrayIndex? key = some i → arrayIndex? other = some i → other = key) ∧
    (∀ call r, memberPlace call (.object r) (.number x) =
      pure (.property (.object r) (numberText x))) ∧
    ((ofFloat x).value? = some (i : ℚ) → i < 2 ^ 32 - 1 → ∀ (o : Object) elements, o.Reached →
      o.cls = .array elements → o.Addresses elements (numberText x) i) := by
  refine ⟨arrayIndex?_numberText, arrayIndex?_eq_some, fun other hkey hother => ?_,
    fun call r => rfl, fun hvalue hlt o elements hreached hcls => ?_⟩
  · exact (arrayIndex?_eq_some.mp hother).1.trans (arrayIndex?_eq_some.mp hkey).1.symm
  · exact hreached.addresses hcls (arrayIndex?_numberText.mpr ⟨hvalue, hlt⟩)

/-- The negative zero addresses the first element of an array. -/
theorem numericIndex_zero : arrayIndex? "0" = some 0 ∧ arrayIndex? (numberText (-0.0)) = some 0 ∧
    (ofFloat (-0.0)).value? = some ((0 : Nat) : ℚ) ∧ 0 < 2 ^ 32 - 1 ∧
    (Object.plain (.array #[.boolean true]) none).Reached ∧
    (Object.plain (.array #[.boolean true]) none).Addresses #[.boolean true]
    (numberText (-0.0)) 0 := by
  have hvalue : (ofFloat (-0.0)).value? = some ((0 : Nat) : ℚ) := by
    have hparts : ofFloat (-0.0) = .finite true 0 (-1074) := by decide +kernel
    simp [hparts, value?]
  have hreached : (Object.plain (.array #[.boolean true]) none).Reached := .made none trivial
  obtain ⟨hnumber, -, hunique, -, haddresses⟩ := numericIndex (-0.0) "0" 0
  have hindex := hnumber.mpr ⟨hvalue, by decide⟩
  have hkey : arrayIndex? "0" = some 0 := by
    rw [← hindex, hunique _ (by decide) hindex]
  exact ⟨hkey, hindex, hvalue, by decide, hreached, haddresses hvalue (by decide) _ _ hreached rfl⟩

end ScriptEngine
