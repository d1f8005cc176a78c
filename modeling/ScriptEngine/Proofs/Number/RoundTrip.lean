import ScriptEngine.Proofs.Number.Conversion
import ScriptEngine.Proofs.Number.Keys
import ScriptEngine.Proofs.Number.Rounding

/-!
# Texts of numbers read back

The digits of a number are laid out at their places or with an exponent.  In each of these forms the
text denotes the decimal that was laid out.  As the shortest decimal of a double rounds to this
double, the text of a number is converted to the number, and that of a number without a sign is a
literal of its value.

## Main statements

* `NumberStyle.layout_denotes` : the text of digits denotes their decimal, in every range of the
  layout.
* `numberText_readsBack` : the text of a number reads back as the number.
-/

namespace ScriptEngine

open Numeral

/-! ### Layouts -/

namespace Numeral

/-- A text denotes a rational number. -/
def DenotesValue (text : List Char) (v : ℚ) : Prop :=
  ∃ d, Denotes text d ∧ d.value = v

theorem Denotes.toValue {text text' : List Char} {d : Decimal} {v : ℚ} (h : Denotes text d)
    (htext : text' = text) (hv : d.value = v) : DenotesValue text' v :=
  ⟨d, htext ▸ h, hv⟩

theorem exponent_signed (e : Int) : Exponent
    ('e' :: (if e < 0 then ['-'] else NumberStyle.script.plus.toList) ++ Nat.toDigits 10 e.natAbs)
    e := by
  have hne : Nat.toDigits 10 e.natAbs ≠ [] := Nat.toDigits_ne_nil
  split
  · next h =>
    have hminus := Exponent.minus (.inl rfl) hne (digits_toDigits e.natAbs)
    rw [digitsValue_toDigits, show -(e.natAbs : Int) = e by omega] at hminus
    exact hminus
  · next h =>
    have hplus := Exponent.plus (.inl rfl) hne (digits_toDigits e.natAbs)
    rw [digitsValue_toDigits, show (e.natAbs : Int) = e by omega] at hplus
    exact hplus

end Numeral

namespace NumberStyle

variable {ds : List Char} {point : Int}

/-- Digits at their places denote their decimal. -/
theorem positional_denotes (hds : Digits ds) (hne : ds ≠ []) :
    DenotesValue (script.positional ds point) (digitsValue ds * 10 ^ (point - ds.length)) := by
  have hpos : 0 < ds.length := List.length_pos_iff.mpr hne
  rw [positional]
  split
  · next hle =>
    -- Zeros fill the places up to the point.
    obtain ⟨n, hn⟩ := Int.eq_ofNat_of_zero_le (show 0 ≤ point - ds.length by omega)
    have hdenotes := Denotes.intro (hds.append (digits_zeros n)) .none (.inl (by simp [hne])) .none
    refine hdenotes.toValue ?_ ?_
    · rw [hn, Int.toNat_natCast]
      simp [script]
    · rw [hn, Decimal.value]
      simp [digitsValue_append, digitsValue_zeros]
  · next hlt =>
    split
    · next hwhole =>
      -- The point stands between the digits.
      obtain ⟨k, rfl⟩ := Int.eq_ofNat_of_zero_le hwhole.le
      obtain ⟨htake, hdrop⟩ : Digits (ds.take k) ∧ Digits (ds.drop k) :=
        Digits.of_append (by rwa [List.take_append_drop])
      have hsome : ds.take k ≠ [] := by
        rw [Ne, List.take_eq_nil_iff, not_or]
        exact ⟨by omega, hne⟩
      have hdenotes := Denotes.intro htake (.digits hdrop) (.inl hsome) .none
      refine hdenotes.toValue ?_ ?_
      · rw [Int.toNat_natCast]
        simp
      · rw [Decimal.value, List.take_append_drop, List.length_drop, Nat.cast_sub (by omega)]
        congr 2
        ring
    · next hwhole =>
      -- Zeros fill the places after the point.
      obtain ⟨n, rfl⟩ := Int.exists_eq_neg_ofNat (not_lt.mp hwhole)
      have hzero : Digits ['0'] := digits_singleton rfl
      have hdenotes := Denotes.intro hzero (.digits ((digits_zeros n).append hds))
          (.inl (List.cons_ne_nil _ _))
        .none
      refine hdenotes.toValue ?_ ?_
      · rw [neg_neg, Int.toNat_natCast]
        simp
      · rw [Decimal.value]
        simp only [digitsValue_append, digitsValue_zeros, List.length_append, length_zeros]
        rw [show digitsValue ['0'] = 0 from rfl, Nat.zero_mul, Nat.zero_mul, Nat.zero_add,
          Nat.zero_add]
        congr 2
        push_cast
        ring

/-- Digits with an exponent denote their decimal. -/
theorem scientific_denotes (hds : Digits ds) (hne : ds ≠ []) :
    DenotesValue (script.scientific ds (point - 1))
      (digitsValue ds * 10 ^ (point - ds.length)) := by
  have he := exponent_signed (point - 1)
  unfold scientific
  dsimp only
  split
  · next first second rest =>
    obtain ⟨hfirst, hrest⟩ : Digits [first] ∧ Digits (second :: rest) := Digits.of_append hds
    have hdenotes := Denotes.intro hfirst (.digits hrest) (.inl (List.cons_ne_nil _ _)) he
    refine hdenotes.toValue ?_ ?_
    · simp
    · rw [Decimal.value, List.length_cons, List.length_cons, List.length_cons]
      dsimp only [List.cons_append, List.nil_append]
      congr 2
      push_cast
      ring
  · next hshort =>
    obtain ⟨first, rfl⟩ : ∃ first, ds = [first] := by
      obtain ⟨first, rest, rfl⟩ := List.exists_cons_of_ne_nil hne
      cases rest with
      | nil => exact ⟨first, rfl⟩
      | cons second rest => exact absurd rfl (hshort first second rest)
    have hdenotes := Denotes.intro hds .none (.inl hne) he
    refine hdenotes.toValue ?_ ?_
    · simp
    · rw [Decimal.value, List.length_singleton]
      simp

/-- The text of digits denotes their decimal. -/
theorem layout_denotes (hds : Digits ds) (hne : ds ≠ []) :
    DenotesValue (script.layout ds point) (digitsValue ds * 10 ^ (point - ds.length)) := by
  rw [layout]
  split
  · exact positional_denotes hds hne
  · exact scientific_denotes hds hne

end NumberStyle

/-! ### Reading back -/

open Binary64

/-- A text that denotes a decimal in the interval of a double. -/
theorem Numeral.DenotesValue.exists_toFloat {text : List Char} {v : ℚ}
    (htext : DenotesValue text v) {m : Nat} {q : Int} (h : IsDouble m q) (hm : 0 < m)
    (hv : Rounds m q v) :
    ∃ d, Denotes text d ∧ ofFloat d.toFloat = .finite false m q := by
  obtain ⟨d, hd, rfl⟩ := htext
  exact ⟨d, hd, Decimal.ofFloat_toFloat h hm hv⟩

/-- The text of the shortest digits of a double denotes a decimal that is read as this double. -/
theorem exists_shortestText {m : Nat} {q : Int} (h : IsDouble m q) (hm : 0 < m) :
    ∃ d, Denotes (NumberStyle.script.layout (shortest m q).chars (shortest m q).point) d ∧
      ofFloat d.toFloat = .finite false m q := by
  have hdenotes :
      DenotesValue (NumberStyle.script.layout (shortest m q).chars (shortest m q).point) _ :=
    NumberStyle.layout_denotes (digits_toDigits (shortest m q).digits) Nat.toDigits_ne_nil
  refine hdenotes.exists_toFloat h hm ?_
  have hvalue : (digitsValue (shortest m q).chars : ℚ) *
      10 ^ ((shortest m q).point - (shortest m q).chars.length) = (shortest m q).value := by
    rw [Decimal.chars, digitsValue_toDigits, Decimal.value, Decimal.point, Decimal.chars]
    congr 2
    ring
  rw [hvalue]
  exact shortest_rounds h hm

/-- The only zero with a sign is the negative zero. -/
theorem eq_zero_of_finite {x : Float} {negative : Bool} {q : Int}
    (hx : ofFloat x = .finite negative 0 q) :
    x = if negative then -0.0 else 0.0 := by
  have hdouble := isDouble_of_ofFloat hx
  obtain rfl : q = -1074 := hdouble.normal.resolve_left (by decide)
  refine ofFloat_injective (hx.trans ?_)
  cases negative <;> decide

/-- A number that is not zero and has no sign is the decimal of its text. -/
theorem exists_numeral {x : Float} {negative : Bool} {m : Nat} {q : Int}
    (hx : ofFloat x = .finite negative m q) (hm : 0 < m) :
    ∃ text d, Denotes text d ∧ numberText x = signText negative ++ String.ofList text ∧
      x = if negative then -d.toFloat else d.toFloat := by
  obtain ⟨d, hd, hfloat⟩ := exists_shortestText (isDouble_of_ofFloat hx) hm
  refine ⟨_, d, hd, numberText_finite hx hm, ofFloat_injective (hx.trans ?_)⟩
  cases negative with
  | false => rw [if_neg Bool.false_ne_true, hfloat]
  | true => rw [if_pos rfl, ofFloat_neg, hfloat, opposite, Bool.not_false]

/-- The text of a number reads back as the number, the negative zero apart, whose text is that of
zero. -/
theorem stringToNumber_numberText {x : Float} (hx : x ≠ -0.0) :
    stringToNumber (numberText x) = x := by
  cases hparts : ofFloat x with
  | nan =>
    obtain rfl : x = notANumber := ofFloat_injective (hparts.trans (by decide))
    decide
  | infinite negative =>
    obtain rfl : x = if negative then -positiveInfinity else positiveInfinity :=
      ofFloat_injective (hparts.trans (by cases negative <;> decide))
    cases negative <;> decide
  | finite negative m q =>
    rcases Nat.eq_zero_or_pos m with rfl | hm
    · have hzero := eq_zero_of_finite hparts
      cases negative with
      | true => exact absurd hzero hx
      | false =>
        subst hzero
        decide
    · obtain ⟨text, d, hd, htext, heq⟩ := exists_numeral hparts hm
      rw [htext, heq]
      cases negative with
      | false =>
        rw [signText, if_neg Bool.false_ne_true, if_neg Bool.false_ne_true, String.empty_append]
        exact hd.stringToNumber
      | true =>
        have hminus : signText true ++ String.ofList text = String.ofList ('-' :: text) :=
          String.toList_injective (by simp [signText])
        rw [hminus, if_pos rfl]
        exact hd.stringToNumber_minus

/-- The text of a number without a sign is a numeral. -/
theorem literal_numberText {x : Float} {m : Nat} {q : Int} (hx : ofFloat x = .finite false m q) :
    Token.numericLiteral.scan? (numberText x).toList = some ((numberText x).toList, []) ∧
      literalValue? (numberText x).toList = some x := by
  rcases Nat.eq_zero_or_pos m with rfl | hm
  · obtain rfl := eq_zero_of_finite hx
    exact ⟨by decide, by decide⟩
  · obtain ⟨text, d, hd, htext, heq⟩ := exists_numeral hx hm
    have hlist : (numberText x).toList = text := by
      rw [htext, signText, if_neg Bool.false_ne_true, String.empty_append, String.toList_ofList]
    rw [hlist, heq, if_neg Bool.false_ne_true]
    exact ⟨hd.scan?, hd.literalValue?⟩

/-- The text of a number reads back as the number, the negative zero apart, whose text is that of
zero.  The text of a finite number without a sign is a numeric literal with this number as its
value.  Digits that are laid out denote their decimal, in every range of the layout. -/
theorem numberText_readsBack {x : Float} (hx : x ≠ -0.0) :
    stringToNumber (numberText x) = x ∧
    (∀ m q, ofFloat x = .finite false m q →
      Token.numericLiteral.scan? (numberText x).toList = some ((numberText x).toList, []) ∧
      literalValue? (numberText x).toList = some x) ∧
    ∀ ds point, Digits ds → ds ≠ [] →
      DenotesValue (NumberStyle.script.layout ds point)
        (digitsValue ds * 10 ^ (point - ds.length)) :=
  ⟨stringToNumber_numberText hx, fun _ _ => literal_numberText,
    fun _ _ => NumberStyle.layout_denotes⟩

/-- The least positive number. -/
theorem numberText_readsBack_least : (5e-324 : Float) ≠ -0.0 ∧
    stringToNumber (numberText 5e-324) = 5e-324 ∧
    literalValue? (numberText 5e-324).toList = some 5e-324 := by
  have hne : (5e-324 : Float) ≠ -0.0 :=
    fun h => absurd (congrArg Float.toBits h) (by decide +kernel)
  have hparts : ofFloat 5e-324 = .finite false 1 (-1074) := by decide +kernel
  obtain ⟨htext, hliteral, -⟩ := numberText_readsBack hne
  exact ⟨hne, htext, (hliteral 1 (-1074) hparts).2⟩

end ScriptEngine
