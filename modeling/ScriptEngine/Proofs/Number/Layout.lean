import ScriptEngine.Number.Style
import ScriptEngine.Proofs.Number.Shortest

/-!
# The layout of digits

The digits of a decimal that does not end in a zero, laid out by a style.  The place of the decimal
point is the decimal magnitude, a decimal is an integer if its point stands after all digits, and
only exponents are written with an `e`.

## Main statements

* `Decimal.bounds_point` : the place of the decimal point.
* `Decimal.integer_iff` : the integers among the decimals.
* `NumberStyle.positional_integer` : the text of an integer.
-/

namespace ScriptEngine

/-! ### Digits -/

namespace Decimal

variable {d : Decimal}

theorem one_le_length (d : Decimal) : 1 ≤ d.chars.length :=
  Nat.length_toDigits_pos

/-- A number with `k` digits lies between two powers of ten. -/
theorem bounds_digits (hpos : 0 < d.digits) :
    10 ^ (d.chars.length - 1) ≤ d.digits ∧ d.digits < 10 ^ d.chars.length := by
  have hone := d.one_le_length
  refine ⟨?_, (Nat.length_toDigits_le_iff (by decide) hone).mp le_rfl⟩
  rcases hone.eq_or_lt with heq | hlt
  · rw [← heq]
    exact hpos
  · have hiff :=
      Nat.length_toDigits_le_iff (b := 10) (n := d.digits) (k := d.chars.length - 1) (by decide)
        (by omega)
    exact Nat.le_of_not_lt fun h => absurd (hiff.mpr h) (by rw [chars] at *; omega)

/-- The decimal point stands where the magnitude says. -/
theorem bounds_point (hpos : 0 < d.digits) :
    (10 : ℚ) ^ (d.point - 1) ≤ d.value ∧ d.value < 10 ^ d.point := by
  obtain ⟨hlow, hhigh⟩ := bounds_digits hpos
  have hone := d.one_le_length
  have hten : (0 : ℚ) < 10 ^ d.exponent := zpow_pos (by norm_num) _
  have hlow : (10 : ℚ) ^ (d.chars.length - 1) ≤ d.digits := by exact_mod_cast hlow
  have hhigh : (d.digits : ℚ) < 10 ^ d.chars.length := by exact_mod_cast hhigh
  have hpoint : d.point - 1 = ((d.chars.length - 1 : Nat) : Int) + d.exponent := by
    rw [point]
    omega
  constructor
  · rw [hpoint, zpow_add₀ (by norm_num), zpow_natCast]
    exact mul_le_mul_of_nonneg_right hlow hten.le
  · rw [point, zpow_add₀ (by norm_num), zpow_natCast]
    exact mul_lt_mul_of_pos_right hhigh hten

/-- A power of ten up to the number tells on which side the point stands. -/
theorem lt_point_iff (hpos : 0 < d.digits) (e : Int) : e < d.point ↔ (10 : ℚ) ^ e ≤ d.value := by
  obtain ⟨hlow, hhigh⟩ := bounds_point hpos
  constructor
  · exact fun h => (zpow_le_zpow_right₀ (by norm_num) (by omega)).trans hlow
  · exact fun h => (zpow_lt_zpow_iff_right₀ (by norm_num)).mp (h.trans_lt hhigh)

/-- A decimal that does not end in a zero is an integer if its exponent is not negative. -/
theorem integer_iff (hlast : d.digits % 10 ≠ 0) : (∃ n : Nat, d.value = n) ↔ 0 ≤ d.exponent := by
  constructor
  · rintro ⟨n, hn⟩
    by_contra hneg
    obtain ⟨e, he⟩ : ∃ e : Nat, d.exponent = -((e + 1 : Nat) : Int) :=
      ⟨(-d.exponent).toNat - 1, by omega⟩
    refine hlast (Nat.mod_eq_zero_of_dvd ⟨n * 10 ^ e, ?_⟩)
    rw [value, he, zpow_neg, zpow_natCast, mul_inv_eq_iff_eq_mul₀ (by positivity)] at hn
    have hn : d.digits = n * 10 ^ (e + 1) := by exact_mod_cast hn
    rw [hn]
    ring
  · intro h
    obtain ⟨e, he⟩ := Int.eq_ofNat_of_zero_le h
    exact ⟨d.digits * 10 ^ e, by rw [value, he, zpow_natCast]; push_cast; rfl⟩

end Decimal

/-- Zeros after the digits of a number are digits of a multiple. -/
theorem toDigits_mul_pow {n : Nat} (hn : 0 < n) (e : Nat) :
    Nat.toDigits 10 (n * 10 ^ e) = Nat.toDigits 10 n ++ NumberStyle.zeros e := by
  induction e with
  | zero => simp [NumberStyle.zeros]
  | succ e ih =>
    have hzero : Nat.toDigits 10 0 = ['0'] := rfl
    have happend := Nat.toDigits_append_toDigits (b := 10) (n := n * 10 ^ e) (d := 0) (by decide)
      (by positivity) (by decide)
    rw [hzero, ih, Nat.add_zero] at happend
    rw [pow_succ, ← mul_assoc, mul_comm (n * 10 ^ e), ← happend, NumberStyle.zeros,
      NumberStyle.zeros, List.append_assoc, List.replicate_succ']

theorem toDigits_injective {a b : Nat} (h : Nat.toDigits 10 a = Nat.toDigits 10 b) : a = b := by
  rw [← Nat.ofDigitChars_ten_toDigits (n := a), h, Nat.ofDigitChars_ten_toDigits]

theorem not_mem_toDigits {c : Char} (hc : c.isDigit = false) (n : Nat) :
    c ∉ Nat.toDigits 10 n := fun h => by
  rw [Nat.isDigit_of_mem_toDigits (by decide) (by decide) h] at hc
  cases hc

/-! ### Texts -/

namespace NumberStyle

variable {style : NumberStyle} {d : Decimal}

theorem zeros_eq {c : Char} {n : Nat} (h : c ∈ zeros n) : c = '0' :=
  List.eq_of_mem_replicate h

/-- An integer is written with its digits. -/
theorem positional_integer (hstyle : style.fraction = false) (hpos : 0 < d.digits) {n : Nat}
    (he : 0 ≤ d.exponent) (hn : d.value = n) :
    style.positional d.chars d.point = Nat.toDigits 10 n := by
  obtain ⟨e, he⟩ := Int.eq_ofNat_of_zero_le he
  have hle : (d.chars.length : Int) ≤ d.point := by
    rw [Decimal.point, he]
    omega
  have hzeros : (d.point - d.chars.length).toNat = e := by
    rw [Decimal.point, he]
    omega
  have hn : n = d.digits * 10 ^ e := by
    rw [Decimal.value, he, zpow_natCast] at hn
    exact_mod_cast hn.symm
  rw [positional, hstyle, if_pos hle, hzeros, if_neg (by decide), List.append_nil, hn,
    toDigits_mul_pow hpos, Decimal.chars]

/-- A number that is no integer is written with a point. -/
theorem mem_positional (he : d.exponent < 0) : '.' ∈ style.positional d.chars d.point := by
  have hlt : ¬ (d.chars.length : Int) ≤ d.point := by
    rw [Decimal.point]
    omega
  rw [positional, if_neg hlt]
  split <;> simp

/-- Only exponents are written with an `e`. -/
theorem e_not_mem_positional (d : Decimal) : 'e' ∉ style.positional d.chars d.point := by
  have hdigits : 'e' ∉ d.chars := not_mem_toDigits (by decide) _
  have hzeros (n : Nat) : 'e' ∉ zeros n := fun h => absurd (zeros_eq h) (by decide)
  have hfraction : 'e' ∉ if style.fraction then ['.', '0'] else [] := by split <;> decide
  rw [positional]
  split
  · simp only [List.mem_append, not_or]
    exact ⟨⟨hdigits, hzeros _⟩, hfraction⟩
  · split
    · simp only [List.mem_append, List.mem_cons, not_or]
      exact ⟨fun h =>
        hdigits (List.mem_of_mem_take h), by decide, fun h => hdigits (List.mem_of_mem_drop h)⟩
    · simp only [List.cons_append, List.mem_append, List.mem_cons, not_or]
      exact ⟨by decide, by decide, hzeros _, hdigits⟩

theorem e_mem_scientific (digits : List Char) (exponent : Int) :
    'e' ∈ style.scientific digits exponent := by
  simp [scientific]

/-- Two styles write the digits alike that they both write at their places. -/
theorem layout_eq_iff {other : NumberStyle} (hfraction : style.fraction = other.fraction)
    (hother : other.isPositional d.point = true) :
    style.layout d.chars d.point = other.layout d.chars d.point ↔
      style.isPositional d.point = true := by
  have hsame : style.positional d.chars d.point = other.positional d.chars d.point := by
    simp only [positional, hfraction]
  simp only [layout, hother, if_true]
  constructor
  · intro h
    by_contra hnot
    rw [if_neg hnot] at h
    exact absurd (h ▸ e_mem_scientific d.chars (d.point - 1)) (e_not_mem_positional d)
  · exact fun h => by rw [if_pos h, hsame]

end NumberStyle

end ScriptEngine
