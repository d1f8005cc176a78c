import ScriptEngine.Proofs.Grammar.Reading
import ScriptEngine.Proofs.Number.Completion
import ScriptEngine.Proofs.Number.Layout
import ScriptEngine.Run.Evaluate
import ScriptEngine.Script.Build

/-!
# Numeric keys

The key of a numeric literal in an object literal, and the text of its value, under which a property
is read with this value as the key.  They are written by different rules: the key shows an integer
below `10 ^ 21` exactly, up to the greatest 64-bit integer, and everything else at its places, while
the text shows the shortest digits, with an exponent outside of a range.

## Main definitions

* `Binary64.KeyAgrees` : the numbers on which both rules agree.

## Main statements

* `numericKey_eq_numberText_iff` : the key is the text on these numbers and on no others.
* `Binary64.keyAgrees_integer`, `Binary64.keyAgrees_fraction` : among them are the integers below
  `2 ^ 53` and the fractions from a millionth on.
* `Build.numericLiteral_key` : the key of a numeric literal and the key that its value reads.
* `Build.numericLiteral_key_large` : a literal whose value reads another key.
-/

namespace ScriptEngine

/-- The numbers of which the key as a literal is their text: integers of 64 bits with no more digits
than needed, and other numbers whose text has no exponent. -/
def Binary64.KeyAgrees : Binary64 → Prop
  | .nan => True
  | .infinite _ => False
  | .finite negative m q => m = 0 ∨
    match (Binary64.finite negative m q).integerPart? with
    | some i => i < 2 ^ 63 ∧ i.natAbs < 10 ^ 21 ∧ (shortest m q).value = i.natAbs
    | none => (10 : ℚ) ^ (-6 : Int) ≤ (shortest m q).value

namespace NumberStyle

variable {d : Decimal}

theorem isPositional_script (point : Int) :
    script.isPositional point = true ↔ -6 < point ∧ point ≤ 21 := by
  simp [isPositional, script]

/-- A script writes the digits of an integer where this is the number and has no exponent. -/
theorem layout_script_eq_iff (hlast : d.digits % 10 ≠ 0) {n : Nat} (hn : 0 < n) :
    script.layout d.chars d.point = Nat.toDigits 10 n ↔ d.value = n ∧ n < 10 ^ 21 := by
  have hpos : 0 < d.digits := by omega
  constructor
  · intro h
    unfold layout at h
    split at h
    · next hpositional =>
      have he : 0 ≤ d.exponent := by
        by_contra hneg
        have hpoint : '.' ∈ script.positional d.chars d.point := mem_positional (not_le.mp hneg)
        exact not_mem_toDigits (by decide) n (h ▸ hpoint)
      obtain ⟨k, hk⟩ := (Decimal.integer_iff hlast).mpr he
      rw [positional_integer rfl hpos he hk] at h
      obtain rfl := toDigits_injective h
      refine ⟨hk, ?_⟩
      have hlt : ¬ (10 : ℚ) ^ (21 : Int) ≤ d.value := fun hle =>
        absurd ((Decimal.lt_point_iff hpos 21).mpr hle)
          (not_lt.mpr ((isPositional_script _).mp hpositional).2)
      rw [hk, not_le] at hlt
      exact_mod_cast hlt
    · have hexponent : 'e' ∈ script.scientific d.chars (d.point - 1) := e_mem_scientific _ _
      exact absurd (h ▸ hexponent) (not_mem_toDigits (by decide) n)
  · rintro ⟨hvalue, hlt⟩
    have he := (Decimal.integer_iff hlast).mp ⟨n, hvalue⟩
    have hlow : (0 : Int) < d.point := (Decimal.lt_point_iff hpos 0).mpr (by
      rw [hvalue, zpow_zero]
      exact_mod_cast hn)
    have hhigh : d.point ≤ 21 := by
      refine not_lt.mp fun h => ?_
      have hle := (Decimal.lt_point_iff hpos 21).mp h
      rw [hvalue] at hle
      have hle : 10 ^ 21 ≤ n := by exact_mod_cast hle
      omega
    rw [layout, if_pos ((isPositional_script _).mpr ⟨by omega, hhigh⟩),
      positional_integer rfl hpos he hvalue]

end NumberStyle

open NumberStyle Binary64

/-! ### The text of a finite number -/

/-- The sign of a number that is not zero. -/
def signText (negative : Bool) : String :=
  if negative then "-" else ""

theorem signText_append_inj {negative : Bool} {s t : String} :
    signText negative ++ s = signText negative ++ t ↔ s = t := by
  constructor
  · intro h
    have h := congrArg String.toList h
    rw [String.toList_append, String.toList_append] at h
    exact String.toList_injective (List.append_cancel_left h)
  · rintro rfl
    rfl

section

variable {x : Float} {negative : Bool} {m : Nat} {q : Int}

theorem numberText_finite (hx : ofFloat x = .finite negative m q) (hm : 0 < m) : numberText x =
    signText negative ++
      String.ofList (script.layout (shortest m q).chars (shortest m q).point) := by
  have hne : (m == 0) = false := by simpa using hm.ne'
  simp only [numberText, render, hx, hne, Bool.false_eq_true, if_false]
  rfl

theorem plainText_finite (hx : ofFloat x = .finite negative m q) (hm : 0 < m) : plainText x =
    signText negative ++
      String.ofList (plain.layout (shortest m q).chars (shortest m q).point) := by
  have hne : (m == 0) = false := by simpa using hm.ne'
  simp only [plainText, render, hx, hne, Bool.false_eq_true, if_false]
  rfl

/-- The texts agree where the script writes no exponent. -/
theorem plainText_eq_numberText_iff (hx : ofFloat x = .finite negative m q) (hm : 0 < m) :
    plainText x = numberText x ↔ -6 < (shortest m q).point ∧ (shortest m q).point ≤ 21 := by
  rw [plainText_finite hx hm, numberText_finite hx hm, signText_append_inj,
    String.ofList_inj, eq_comm]
  have hplain : plain.isPositional (shortest m q).point = true := rfl
  exact Iff.trans (layout_eq_iff rfl hplain) (isPositional_script _)

/-- The text of a signed integer. -/
theorem toString_signed (negative : Bool) {n : Nat} (hn : 0 < n) :
    toString (if negative then -(n : Int) else n) = signText negative ++
      String.ofList (Nat.toDigits 10 n) := by
  rw [← Nat.toString_eq_ofList_toDigits]
  cases negative with
  | false => rfl
  | true =>
    obtain ⟨k, rfl⟩ := Nat.exists_eq_add_one.mpr hn
    rfl

/-- An integer that is a double, as its sign and its magnitude. -/
theorem integerPart?_signed {i : Int} (hm : 0 < m)
    (hi : (Binary64.finite negative m q).integerPart? = some i) :
    ∃ n : Nat, 0 < n ∧ (m : ℚ) * 2 ^ q = n ∧ i = if negative then -(n : Int) else n := by
  have hvalue := integerPart?_eq_some.mp hi
  have htwo : (0 : ℚ) < 2 ^ q := zpow_pos (by norm_num) q
  have hpos : (0 : ℚ) < m * 2 ^ q := mul_pos (by exact_mod_cast hm) htwo
  rw [value?, Option.some_inj, mul_assoc] at hvalue
  generalize (m : ℚ) * 2 ^ q = v at *
  cases negative with
  | false =>
    rw [if_neg (by decide), one_mul] at hvalue
    have hi' : 0 < i := by exact_mod_cast hvalue ▸ hpos
    obtain ⟨n, rfl⟩ := Int.eq_ofNat_of_zero_le hi'.le
    exact ⟨n, by omega, by exact_mod_cast hvalue, rfl⟩
  | true =>
    rw [if_pos rfl, neg_one_mul] at hvalue
    have hi' : i < 0 := by
      have : (i : ℚ) < 0 := by linarith
      exact_mod_cast this
    obtain ⟨n, rfl⟩ := Int.exists_eq_neg_ofNat hi'.le
    refine ⟨n, by omega, ?_, rfl⟩
    push_cast at hvalue
    exact neg_injective hvalue

/-- A decimal with at most seventeen digits that do not end in a zero is not the greatest integer of
64 bits. -/
theorem value_ne_max {d : Decimal} (hlast : d.digits % 10 ≠ 0) (hlength : d.digits < 10 ^ 17) :
    d.value ≠ (2 ^ 63 - 1 : Nat) := by
  intro h
  obtain ⟨e, he⟩ := Int.eq_ofNat_of_zero_le ((Decimal.integer_iff hlast).mp ⟨_, h⟩)
  rw [Decimal.value, he, zpow_natCast] at h
  have h : d.digits * 10 ^ e = 2 ^ 63 - 1 := by exact_mod_cast h
  cases e with
  | zero => omega
  | succ e =>
    rw [pow_succ, ← mul_assoc] at h
    omega

/-- The text of a finite number is that of an integer if its shortest digits are. -/
theorem numberText_eq_integer_iff (hx : ofFloat x = .finite negative m q) (hm : 0 < m) {n : Nat}
    (hn : 0 < n) :
    toString (if negative then -(n : Int) else n) = numberText x ↔
      (shortest m q).value = n ∧ n < 10 ^ 21 := by
  have hlast := (shortest_spec (isDouble_of_ofFloat hx) hm).last
  rw [toString_signed negative hn, numberText_finite hx hm, signText_append_inj,
    String.ofList_inj, eq_comm, layout_script_eq_iff hlast hn]

/-- An integer from `10 ^ 21` on is written with an exponent. -/
theorem plainText_ne_numberText (hx : ofFloat x = .finite negative m q) (hm : 0 < m) {n : Nat}
    (hn : (m : ℚ) * 2 ^ q = n) (hlarge : 10 ^ 21 ≤ n) : plainText x ≠ numberText x := by
  have hdouble := isDouble_of_ofFloat hx
  have hspec := shortest_spec hdouble hm
  rw [Ne, plainText_eq_numberText_iff hx hm]
  rintro ⟨-, hpoint⟩
  refine absurd ((Decimal.lt_point_iff (by have := hspec.last; omega) 21).mpr ?_)
    (not_lt.mpr hpoint)
  have hlow : (10 : ℚ) ^ (21 : Int) < 10 ^ (decimalMagnitude (Rounding.ofParts m q) + 1) := by
    refine lt_of_le_of_lt ?_ (decimalMagnitude_spec hdouble hm).2
    rw [hn]
    exact_mod_cast hlarge
  have hmagnitude := (zpow_lt_zpow_iff_right₀ (by norm_num)).mp hlow
  exact (zpow_le_zpow_right₀ (by norm_num) (by omega)).trans hspec.magnitude.1

/-- A number that is no integer has no more than sixteen digits before the point. -/
theorem point_le_of_fraction (hdouble : IsDouble m q) (hm : 0 < m)
    (hnone : (Binary64.finite negative m q).integerPart? = none) : (shortest m q).point ≤ 21 := by
  have hspec := shortest_spec hdouble hm
  have hq : q < 0 := by
    by_contra hneg
    simp [integerPart?, truncated, not_lt.mp hneg] at hnone
  refine not_lt.mp fun hpoint => ?_
  have hlarge := (Decimal.lt_point_iff (by have := hspec.last; omega) 21).mp hpoint
  have hmagnitude := (zpow_le_zpow_iff_right₀ (by norm_num)).mp (hlarge.trans hspec.magnitude.2)
  have hvalue : (m : ℚ) * 2 ^ q < 10 ^ (20 : Int) := by
    have hlt : (m : ℚ) < 2 ^ 53 := by exact_mod_cast hdouble.significand
    have hone : (2 : ℚ) ^ q ≤ 1 := zpow_le_one_of_nonpos₀ (by norm_num) hq.le
    have hzero : (0 : ℚ) ≤ m := by positivity
    calc (m : ℚ) * 2 ^ q ≤ m * 1 := mul_le_mul_of_nonneg_left hone hzero
      _ < 10 ^ (20 : Int) := by
        rw [mul_one]
        refine hlt.trans ?_
        norm_num
  have hten : (10 : ℚ) ^ (20 : Int) ≤ 10 ^ decimalMagnitude (Rounding.ofParts m q) :=
    zpow_le_zpow_right₀ (by norm_num) (by omega)
  have hlow := hten.trans (decimalMagnitude_spec hdouble hm).1
  exact absurd hvalue (not_lt.mpr hlow)

end

/-! ### Keys -/

/-- The key of a number as a literal is its text on the numbers on which both rules agree, and on no
others. -/
theorem numericKey_eq_numberText_iff (x : Float) :
    numericKey x = numberText x ↔ (ofFloat x).KeyAgrees := by
  unfold numericKey
  cases hx : ofFloat x with
  | nan => simp [integerPart?, KeyAgrees, plainText, numberText, render, hx]
  | infinite negative =>
    cases negative <;>
      simp [integerPart?, KeyAgrees, plainText, numberText, render, hx, plain, script]
  | finite negative m q =>
    have hdouble := isDouble_of_ofFloat hx
    rcases Nat.eq_zero_or_pos m with rfl | hm
    · refine iff_of_true ?_ (.inl rfl)
      have hzero : (Binary64.finite negative 0 q).integerPart? = some 0 := by
        simp [integerPart?_eq_some, value?]
      rw [hzero]
      simp only [numberText, render, hx, script, Bool.and_false, Bool.false_eq_true, if_false,
        beq_self_eq_true, if_true]
      rfl
    · have hspec := shortest_spec hdouble hm
      rw [KeyAgrees, or_iff_right hm.ne']
      cases hi : (Binary64.finite negative m q).integerPart? with
      | none =>
        have hpoint := point_le_of_fraction hdouble hm hi
        have hdigits : 0 < (shortest m q).digits := by
          have := hspec.last
          omega
        dsimp only
        rw [plainText_eq_numberText_iff hx hm, and_iff_left hpoint, Decimal.lt_point_iff hdigits]
      | some i =>
        obtain ⟨n, hn, hvalue, rfl⟩ := integerPart?_signed hm hi
        have habs : (if negative then -(n : Int) else n).natAbs = n := by split <;> simp
        dsimp only
        rw [habs]
        rw [show Nat.pow 10 21 = 10 ^ 21 from rfl,
          show (0x7FFFFFFFFFFFFFFF : Int) = 2 ^ 63 - 1 from rfl]
        split
        · next hlt =>
          rcases lt_or_ge (if negative then -(n : Int) else n) (2 ^ 63) with hword | hlarge
          · rw [min_eq_left (by omega), numberText_eq_integer_iff hx hm hn]
            tauto
          · -- The greatest integer of 64 bits has too many digits to be a double's shortest text.
            refine iff_of_false ?_ fun h => absurd h.1 (not_lt.mpr hlarge)
            obtain rfl : negative = false := by
              cases negative
              · rfl
              · rw [if_pos rfl] at hlarge
                omega
            rw [min_eq_right (by omega)]
            intro h
            have hmax := (numberText_eq_integer_iff hx hm (n := 2 ^ 63 - 1) (by decide)).mp h
            exact value_ne_max hspec.last hspec.length hmax.1
        · next hnot =>
          exact iff_of_false (plainText_ne_numberText hx hm hvalue (not_lt.mp hnot))
            fun h => hnot h.2.1

/-- The key of an integer below `2 ^ 53` is its text. -/
theorem Binary64.keyAgrees_integer {negative : Bool} {m : Nat} {q : Int}
    (hdouble : IsDouble m q) {i : Int} (hi : (Binary64.finite negative m q).integerPart? = some i)
    (hlt : i.natAbs < 2 ^ 53) :
    (Binary64.finite negative m q).KeyAgrees := by
  rcases Nat.eq_zero_or_pos m with rfl | hm
  · exact .inl rfl
  · refine .inr ?_
    obtain ⟨n, hn, hvalue, rfl⟩ := integerPart?_signed hm hi
    have habs : (if negative then -(n : Int) else n).natAbs = n := by split <;> simp
    rw [habs] at hlt
    rw [hi]
    dsimp only
    rw [habs]
    exact ⟨by split <;> omega, by omega, value_shortest_of_integer hdouble hm hvalue hlt⟩

/-- The key of a fraction that is at least a millionth is its text. -/
theorem Binary64.keyAgrees_fraction {negative : Bool} {m : Nat} {q : Int} (hdouble : IsDouble m q)
    (hnone : (Binary64.finite negative m q).integerPart? = none)
    (hlarge : (10 : ℚ) ^ (-6 : Int) ≤ m * 2 ^ q) : (Binary64.finite negative m q).KeyAgrees := by
  rcases Nat.eq_zero_or_pos m with rfl | hm
  · exact .inl rfl
  · refine .inr ?_
    rw [hnone]
    have hmagnitude := (zpow_lt_zpow_iff_right₀ (by norm_num)).mp
      (hlarge.trans_lt (decimalMagnitude_spec hdouble hm).2)
    have hten : (10 : ℚ) ^ (-6 : Int) ≤ 10 ^ decimalMagnitude (Rounding.ofParts m q) :=
      zpow_le_zpow_right₀ (by norm_num) (by omega)
    exact hten.trans (shortest_spec hdouble hm).magnitude.1

/-- A numeric literal has a value, which is what it evaluates to.  As a key it stands for the
numeric key of this value; an object is read with the value at the text of the value.  Both are the
same on the numbers on which the rules agree, and on no others. -/
theorem Build.numericLiteral_key {text : List Char} (h : Token.Spells .numericLiteral text)
    (span : Span) :
    ∃ n, literalValue? text = some n ∧
      leaf .numericLiteral span text = pure (.literal span (.number n)) ∧
      propertyKey (.leaf .numericLiteral span text) = pure (numericKey n) ∧
      (∀ call r, memberPlace call (.object r) (.number n) =
        pure (.property (.object r) (numberText n))) ∧
      (numericKey n = numberText n ↔ (Binary64.ofFloat n).KeyAgrees) := by
  obtain ⟨cs, rest, hscan⟩ := h
  obtain ⟨n, hn⟩ := Token.exists_literalValue? hscan
  refine ⟨n, hn, ?_, ?_, fun call r => rfl, numericKey_eq_numberText_iff n⟩
  · simp only [leaf, hn]
    rfl
  · simp only [propertyKey, hn]
    rfl

theorem Build.numericLiteral_key_small : Token.Spells .numericLiteral "12".toList ∧
    ∃ n, literalValue? "12".toList = some n ∧
      propertyKey (.leaf .numericLiteral ⟨1, 3⟩ "12".toList) = pure (numericKey n) ∧
      numericKey n = "12" ∧ (Binary64.ofFloat n).KeyAgrees := by
  have hspells : Token.Spells .numericLiteral "12".toList := ⟨"12".toList, [], by decide +kernel⟩
  obtain ⟨n, hn, -, hkey, -, hiff⟩ := numericLiteral_key hspells ⟨1, 3⟩
  have hagrees : (literalValue? "12".toList).all
      (fun n => numericKey n == "12" && numberText n == "12") := by
    decide +kernel
  rw [hn, Option.all_some, Bool.and_eq_true, beq_iff_eq, beq_iff_eq] at hagrees
  exact ⟨hspells, n, hn, hkey, hagrees.1, hiff.mp (hagrees.1.trans hagrees.2.symm)⟩

/-- The key of this literal is the greatest integer of 64 bits, which its value does not read. -/
theorem Build.numericLiteral_key_large : Token.Spells .numericLiteral "1e19".toList ∧
    ∃ n, literalValue? "1e19".toList = some n ∧ numericKey n = "9223372036854775807" ∧
      numberText n = "10000000000000000000" := by
  refine ⟨⟨"1e19".toList, [], by decide +kernel⟩, ?_⟩
  have hkeys : (literalValue? "1e19".toList).any (fun n =>
      numericKey n == "9223372036854775807" && numberText n == "10000000000000000000") := by
    decide +kernel
  obtain ⟨n, hn, hkeys⟩ := Option.any_eq_true _ _ |>.mp hkeys
  simp only [Bool.and_eq_true, beq_iff_eq] at hkeys
  exact ⟨n, hn, hkeys⟩

end ScriptEngine
