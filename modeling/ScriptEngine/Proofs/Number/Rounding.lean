import ScriptEngine.Number.Numeral
import ScriptEngine.Proofs.Number.Layout
import ScriptEngine.Proofs.Number.Pattern

/-!
# Rounding to doubles

The double nearest to a quotient has the least exponent at which its significand fits, and the
significand nearest to the quotient at this exponent.  So every rational number in the interval of a
double is read as this double, in particular its shortest decimal.

## Main definitions

* `Binary64.Rounds` : the interval of a double, with its ends if the significand is even.
* `FitsAt` : the exponent at which a number is rounded.

## Main statements

* `nearestBits_eq` : a quotient in the interval of a double is read as this double.
* `Decimal.ofFloat_toFloat` : so is every decimal.
* `Decimal.toFloat_congr` : decimals of one value are read alike.
* `shortest_rounds` : the shortest decimal of a double is in its interval.
-/

namespace ScriptEngine

open Binary64 Rounding

/-- A number that rounds to the double `m · 2 ^ q`: it lies between the midpoints to the neighbours,
which themselves round to the even significand. -/
structure Binary64.Rounds (m : Nat) (q : Int) (v : ℚ) : Prop where
  low : (m - quarters m q / 4) * 2 ^ q ≤ v
  high : v ≤ (m + 1 / 2) * 2 ^ q
  strict : m % 2 = 1 → (m - quarters m q / 4) * 2 ^ q < v ∧ v < (m + 1 / 2) * 2 ^ q

/-- The shortest decimal of a double rounds to it. -/
theorem shortest_rounds {m : Nat} {q : Int} (h : IsDouble m q) (hm : 0 < m) :
    Rounds m q (shortest m q).value := by
  obtain ⟨j, n, hgrid⟩ := exists_onGrid h hm
  rw [hgrid.strip_spec.1]
  exact ⟨hgrid.inside.1, hgrid.inside.2, hgrid.strict⟩

/-! ### Significands -/

/-- A quotient rounds to the natural that it is no farther from than a half, and to an even one if
it is that far from it. -/
theorem roundedQuotient_eq {num den n : Nat} (hden : 0 < den) (hlow : (n : ℚ) - 1 / 2 ≤ num / den)
    (hhigh : (num : ℚ) / den ≤ n + 1 / 2)
    (hstrict : n % 2 = 1 → (n : ℚ) - 1 / 2 < num / den ∧ (num : ℚ) / den < n + 1 / 2) :
    roundedQuotient num den = n := by
  have hpos : (0 : ℚ) < den := by exact_mod_cast hden
  rw [le_div_iff₀ hpos] at hlow
  rw [div_le_iff₀ hpos] at hhigh
  rw [lt_div_iff₀ hpos, div_lt_iff₀ hpos] at hstrict
  have hlow : 2 * (den * n) ≤ 2 * num + den := by
    have : (2 * (den * n) : ℚ) ≤ 2 * num + den := by linarith
    exact_mod_cast this
  have hhigh : 2 * num ≤ 2 * (den * n) + den := by
    have : (2 * num : ℚ) ≤ 2 * (den * n) + den := by linarith
    exact_mod_cast this
  have hstrict (hodd : n % 2 = 1) : 2 * (den * n) < 2 * num + den ∧
      2 * num < 2 * (den * n) + den := by
    obtain ⟨h₁, h₂⟩ := hstrict hodd
    have h₁ : (2 * (den * n) : ℚ) < 2 * num + den := by linarith
    have h₂ : (2 * num : ℚ) < 2 * (den * n) + den := by linarith
    exact ⟨by exact_mod_cast h₁, by exact_mod_cast h₂⟩
  have hsplit := Nat.div_add_mod num den
  have hrest := Nat.mod_lt num hden
  unfold roundedQuotient
  dsimp only
  generalize num / den = k at *
  generalize num % den = r at *
  -- The natural is the floor of the quotient or the one after it.
  have hfloor : k = n ∨ k + 1 = n := by
    have hle : k ≤ n := by
      by_contra hlt
      have := Nat.mul_le_mul_left den (show n + 1 ≤ k by omega)
      rw [Nat.mul_add] at this
      omega
    have hge : n ≤ k + 1 := by
      by_contra hlt
      have := Nat.mul_le_mul_left den (show k + 2 ≤ n by omega)
      rw [Nat.mul_add] at this
      omega
    omega
  simp only [Bool.or_eq_true, Bool.and_eq_true, decide_eq_true_eq, beq_iff_eq]
  rcases hfloor with rfl | rfl
  · rw [if_neg]
    rintro (hfar | ⟨hhalf, hodd⟩)
    · omega
    · have := hstrict hodd
      omega
  · rw [Nat.mul_add] at *
    rw [if_pos]
    by_cases hhalf : 2 * r > den
    · exact .inl hhalf
    · refine .inr ⟨by omega, ?_⟩
      by_contra heven
      have := hstrict (by omega)
      omega

/-! ### Exponents -/

/-- The exponent at which a number is rounded: the least one at which its significand is below
`2 ^ 53`. -/
structure FitsAt (v : ℚ) (e : Int) : Prop where
  least : -1074 ≤ e
  below : v < 2 ^ 53 * 2 ^ e
  above : e = -1074 ∨ 2 ^ 52 * 2 ^ e ≤ v

theorem FitsAt.le {v : ℚ} {e e' : Int} (h : FitsAt v e) (h' : FitsAt v e') : e' ≤ e := by
  by_contra hlt
  have hle : 2 ^ 52 * 2 ^ e' ≤ v := h'.above.resolve_left (by have := h.least; omega)
  have hpow : (2 : ℚ) ^ (e + 1) ≤ 2 ^ e' := zpow_le_zpow_right₀ (by norm_num) (by omega)
  rw [zpow_add_one₀ (by norm_num)] at hpow
  have := h.below
  linarith

theorem FitsAt.unique {v : ℚ} {e e' : Int} (h : FitsAt v e) (h' : FitsAt v e') : e = e' :=
  le_antisymm (h'.le h) (h.le h')

/-- A number that rounds to a double is rounded at its exponent, or at the one below if it is below
a power of two. -/
theorem Binary64.Rounds.fitsAt {m : Nat} {q : Int} {v : ℚ} (hv : Rounds m q v) (h : IsDouble m q) :
    FitsAt v q ∨ m = 2 ^ 52 ∧ FitsAt v (q - 1) ∧ (2 ^ 53 - 1 / 2) * 2 ^ (q - 1) ≤ v := by
  have hpow : (0 : ℚ) < 2 ^ q := zpow_pos (by norm_num) q
  have hm : (m : ℚ) ≤ 2 ^ 53 - 1 := by
    have : m + 1 ≤ 2 ^ 53 := h.significand
    have : (m + 1 : ℚ) ≤ 2 ^ 53 := by exact_mod_cast this
    linarith
  have hbelow : v < 2 ^ 53 * 2 ^ q := hv.high.trans_lt (mul_lt_mul_of_pos_right (by linarith) hpow)
  by_cases hnormal : q = -1074 ∨ 2 ^ 52 * 2 ^ q ≤ v
  · exact .inl ⟨h.least, hbelow, hnormal⟩
  · rw [not_or, not_le] at hnormal
    obtain ⟨hq, hlt⟩ := hnormal
    have hge := h.normal.resolve_right hq
    have hsmall : (m : ℚ) - quarters m q / 4 < 2 ^ 52 :=
      lt_of_mul_lt_mul_right (hv.low.trans_lt hlt) hpow.le
    have hquarters : (quarters m q : ℚ) ≤ 2 := by
      unfold quarters
      split <;> norm_num
    obtain rfl : m = 2 ^ 52 := by
      refine le_antisymm ?_ hge
      by_contra hgt
      have : 2 ^ 52 + 1 ≤ m := by omega
      have : (2 ^ 52 + 1 : ℚ) ≤ m := by exact_mod_cast this
      linarith
    have hone : quarters (2 ^ 52) q = 1 := if_pos ⟨rfl, by have := h.least; omega⟩
    have hdouble : (2 : ℚ) ^ q = 2 ^ (q - 1) * 2 := by
      rw [← zpow_add_one₀ (by norm_num), sub_add_cancel]
    have hlow := hv.low
    rw [hone, hdouble] at hlow
    rw [hdouble] at hlt
    have hpow' : (0 : ℚ) < 2 ^ (q - 1) := zpow_pos (by norm_num) _
    refine .inr ⟨rfl, ⟨by have := h.least; omega, by linarith, .inr ?_⟩, ?_⟩
    · refine le_trans (mul_le_mul_of_nonneg_right ?_ hpow'.le) ?_
        (b := (2 ^ 53 - 1 / 2) * 2 ^ (q - 1))
      · norm_num
      · push_cast at hlow
        linarith
    · push_cast at hlow
      linarith

/-- Scaling divides a quotient by a power of two. -/
theorem scaledBy_spec (num : Nat) {den : Nat} (hden : 0 < den) (e : Int) :
    0 < (scaledBy num den e).2 ∧
      ((scaledBy num den e).1 : ℚ) / (scaledBy num den e).2 = num / den / 2 ^ e := by
  unfold scaledBy
  rcases le_or_gt 0 e with he | he
  · obtain ⟨n, rfl⟩ := Int.eq_ofNat_of_zero_le he
    rw [if_pos he]
    refine ⟨Nat.mul_pos hden (Nat.pow_pos (by decide)), ?_⟩
    simp [div_div]
  · obtain ⟨n, hn⟩ := Int.eq_ofNat_of_zero_le (Int.neg_nonneg_of_nonpos he.le)
    obtain rfl : e = -(n : Int) := by omega
    rw [if_neg (by omega)]
    refine ⟨hden, ?_⟩
    simp [div_mul_eq_mul_div]

/-- The binary magnitude of a quotient. -/
theorem log2_bounds {num den : Nat} (hnum : 0 < num) (hden : 0 < den) :
    (2 : ℚ) ^ ((num.log2 : Int) - den.log2 - 1) < num / den ∧
      (num : ℚ) / den < 2 ^ ((num.log2 : Int) - den.log2 + 1) := by
  have hpos : (0 : ℚ) < den := by exact_mod_cast hden
  have hlow : (2 : ℚ) ^ num.log2 ≤ num := by exact_mod_cast Nat.log2_self_le hnum.ne'
  have hhigh : (num : ℚ) < 2 ^ (num.log2 + 1) := by exact_mod_cast Nat.lt_log2_self
  have hlow' : (2 : ℚ) ^ den.log2 ≤ den := by exact_mod_cast Nat.log2_self_le hden.ne'
  have hhigh' : (den : ℚ) < 2 ^ (den.log2 + 1) := by exact_mod_cast Nat.lt_log2_self
  constructor
  · rw [lt_div_iff₀ hpos]
    calc (2 : ℚ) ^ ((num.log2 : Int) - den.log2 - 1) * den
        < 2 ^ ((num.log2 : Int) - den.log2 - 1) * 2 ^ (den.log2 + 1) :=
          mul_lt_mul_of_pos_left hhigh' (zpow_pos (by norm_num) _)
      _ = 2 ^ num.log2 := by
          rw [← zpow_natCast, ← zpow_natCast, ← zpow_add₀ (by norm_num)]
          congr 1
          push_cast
          ring
      _ ≤ num := hlow
  · rw [div_lt_iff₀ hpos]
    calc (num : ℚ) < 2 ^ (num.log2 + 1) := hhigh
      _ = 2 ^ ((num.log2 : Int) - den.log2 + 1) * 2 ^ den.log2 := by
          rw [← zpow_natCast, ← zpow_natCast, ← zpow_add₀ (by norm_num)]
          congr 1
          push_cast
          ring
      _ ≤ 2 ^ ((num.log2 : Int) - den.log2 + 1) * den :=
          mul_le_mul_of_nonneg_left hlow' (zpow_pos (by norm_num) _).le

/-- The exponent that is estimated from the binary magnitude, and corrected if the significand is
too large, is the one at which a quotient is rounded. -/
theorem fitsAt_guess {num den : Nat} (hnum : 0 < num) (hden : 0 < den) {guess : Int}
    (hguess : guess = max ((num.log2 : Int) - den.log2 - 53) (-1074)) :
    FitsAt (num / den) (if (scaledBy num den guess).1 / (scaledBy num den guess).2 <
      Nat.pow 2 53 then guess
      else guess + 1) := by
  obtain ⟨hlow, hhigh⟩ := log2_bounds hnum hden
  obtain ⟨hpos, hscaled⟩ := scaledBy_spec num hden guess
  have hpow : (0 : ℚ) < 2 ^ guess := zpow_pos (by norm_num) _
  have hfits : (scaledBy num den guess).1 / (scaledBy num den guess).2 < Nat.pow 2 53 ↔
      (num : ℚ) / den < 2 ^ 53 * 2 ^ guess := by
    have hpos' : (0 : ℚ) < (scaledBy num den guess).2 := by exact_mod_cast hpos
    rw [← div_lt_iff₀ hpow, ← hscaled, div_lt_iff₀ hpos', Nat.div_lt_iff_lt_mul hpos]
    exact_mod_cast Iff.rfl
  have hfloor : guess = -1074 ∨ 2 ^ 52 * 2 ^ guess ≤ (num : ℚ) / den := by
    rcases max_choice ((num.log2 : Int) - den.log2 - 53) (-1074) with h | h
    · refine .inr (le_trans (le_of_eq ?_) hlow.le)
      rw [hguess, h, ← zpow_natCast, ← zpow_add₀ (by norm_num)]
      congr 1
      push_cast
      ring
    · exact .inl (hguess.trans h)
  have hceil : (num : ℚ) / den < 2 ^ 53 * 2 ^ (guess + 1) := by
    refine hhigh.trans_le ?_
    rw [← zpow_natCast, ← zpow_add₀ (by norm_num)]
    exact zpow_le_zpow_right₀ (by norm_num) (by push_cast; omega)
  split
  · next h => exact ⟨by omega, hfits.mp h, hfloor⟩
  · next h =>
    rw [hfits, not_lt] at h
    refine ⟨by omega, hceil, .inr ?_⟩
    rw [zpow_add_one₀ (by norm_num)]
    linarith

/-! ### Reading -/

variable {m : Nat} {q : Int}

/-- The pattern of a double. -/
theorem pattern_lt_infinity (h : IsDouble m q) : (q + 1074).toNat * 2 ^ 52 + m < infinityBits := by
  have := h.significand
  have := h.most
  unfold infinityBits
  omega

/-- A quotient in the interval of a double is read as this double. -/
theorem nearestBits_eq (h : IsDouble m q) {num den : Nat} (hnum : 0 < num) (hden : 0 < den)
    (hv : Rounds m q (num / den)) : nearestBits num den = (q + 1074).toNat * 2 ^ 52 + m := by
  unfold nearestBits
  rw [if_neg (by simpa using hnum.ne')]
  dsimp only
  generalize hguess : max ((num.log2 : Int) - den.log2 - 53) (-1074) = guess
  have hfits := fitsAt_guess hnum hden hguess.symm
  generalize (if (scaledBy num den guess).1 / (scaledBy num den guess).2 < Nat.pow 2 53 then guess
    else guess + 1) = e at *
  obtain ⟨hpos, hscaled⟩ := scaledBy_spec num hden e
  have hpow : (0 : ℚ) < 2 ^ e := zpow_pos (by norm_num) _
  suffices hsum : (e + 1074).toNat * Nat.pow 2 52 +
      roundedQuotient (scaledBy num den e).1 (scaledBy num den e).2 = (q + 1074).toNat *
        2 ^ 52 + m by
    rw [hsum, min_eq_left (pattern_lt_infinity h).le]
  rcases hv.fitsAt h with hq | ⟨rfl, hq, hlow⟩
  · obtain rfl := hfits.unique hq
    have hquarters : (quarters m e : ℚ) ≤ 2 := by
      unfold quarters
      split <;> norm_num
    rw [roundedQuotient_eq (n := m) hpos]
    · rfl
    · rw [hscaled, le_div_iff₀ hpow]
      refine le_trans (mul_le_mul_of_nonneg_right ?_ hpow.le) hv.low
      linarith
    · rw [hscaled, div_le_iff₀ hpow]
      exact hv.high
    · intro hodd
      obtain ⟨h₁, h₂⟩ := hv.strict hodd
      rw [hscaled, lt_div_iff₀ hpow, div_lt_iff₀ hpow]
      refine ⟨lt_of_le_of_lt (mul_le_mul_of_nonneg_right ?_ hpow.le) h₁, h₂⟩
      linarith
  · -- Just below a power of two the significand is rounded up to the next binade.
    obtain rfl := hfits.unique hq
    have hleast := hq.least
    rw [roundedQuotient_eq (n := 2 ^ 53) hpos]
    · rw [show Nat.pow 2 52 = 2 ^ 52 from rfl]
      omega
    · rw [hscaled, le_div_iff₀ hpow]
      exact_mod_cast hlow
    · rw [hscaled, div_le_iff₀ hpow]
      refine hq.below.le.trans (mul_le_mul_of_nonneg_right ?_ hpow.le)
      norm_num
    · intro hodd
      norm_num at hodd

/-- The double with the pattern of a double. -/
theorem ofFloat_nearestFloat (h : IsDouble m q) {num den : Nat} (hnum : 0 < num) (hden : 0 < den)
    (hv : Rounds m q (num / den)) : ofFloat (nearestFloat false num den) = .finite false m q := by
  have hlt := pattern_lt_infinity h
  have hword : ((q + 1074).toNat * 2 ^ 52 + m) % 2 ^ 64 = (q + 1074).toNat * 2 ^ 52 + m :=
    Nat.mod_eq_of_lt (hlt.trans (by decide))
  have hparts := ofBits_pattern (b := .finite false m q) h
  rw [pattern, show signWeight false = 0 from rfl, Nat.zero_add] at hparts
  unfold nearestFloat
  rw [nearestBits_eq h hnum hden hv]
  dsimp only
  rw [if_neg (by decide), ofFloat_ofBits, UInt64.toNat_ofNat', hword, hparts]

/-- What rounds to a double that is not zero is in the range of doubles. -/
theorem Binary64.Rounds.bounds {v : ℚ} (hv : Rounds m q v) (h : IsDouble m q) (hm : 0 < m) :
    (10 : ℚ) ^ (-401 : Int) ≤ v ∧ v < 10 ^ (400 : Int) := by
  obtain ⟨hleast, hmost⟩ := h.bounds hm
  have hpow : (0 : ℚ) < 2 ^ q := zpow_pos (by norm_num) q
  have hone : (1 : ℚ) ≤ m := by exact_mod_cast hm
  have hquarters : (quarters m q : ℚ) ≤ 2 := by
    unfold quarters
    split <;> norm_num
  constructor
  · have hhalf : (m : ℚ) * 2 ^ q / 2 ≤ v := by
      refine le_trans ?_ hv.low
      rw [mul_div_right_comm]
      exact mul_le_mul_of_nonneg_right (by linarith) hpow.le
    refine le_trans ?_ ((div_le_div_of_nonneg_right hleast (by norm_num)).trans hhalf)
    have hten : 2 ^ 1074 * 2 ≤ 10 ^ 401 := by decide +kernel
    rw [zpow_neg, zpow_neg, div_eq_mul_inv, ← mul_inv]
    exact inv_anti₀ (by positivity) (by exact_mod_cast hten)
  · have htwice : v ≤ 2 * (m * 2 ^ q) := by
      refine hv.high.trans ?_
      rw [← mul_assoc]
      exact mul_le_mul_of_nonneg_right (by linarith) hpow.le
    have hten : 2 * 2 ^ 1024 < 10 ^ 400 := by decide +kernel
    exact htwice.trans_lt ((mul_lt_mul_of_pos_left hmost (by norm_num)).trans
      (by exact_mod_cast hten))

/-- A decimal is read from a quotient that is its value. -/
theorem Decimal.exists_quotient (d : Decimal) :
    ∃ num den : Nat, 0 < den ∧ (num : ℚ) / den = d.value ∧
    d.toFloat = if d.digits == 0 then 0.0 else if d.point > 400 then 1.0 / 0.0
      else if d.point < -400 then 0.0 else nearestFloat false num den := by
  have hvalue : d.value = d.digits * 10 ^ d.exponent := rfl
  unfold toFloat
  by_cases he : 0 ≤ d.exponent
  · obtain ⟨e, hexp⟩ := Int.eq_ofNat_of_zero_le he
    refine ⟨d.digits * Nat.pow 10 d.exponent.toNat, 1, Nat.one_pos, ?_, by rw [if_pos he]⟩
    rw [hvalue, hexp, zpow_natCast]
    simp
  · obtain ⟨e, hexp⟩ : ∃ e : Nat, d.exponent = -(e : Int) := ⟨(-d.exponent).toNat, by omega⟩
    refine ⟨d.digits, Nat.pow 10 (-d.exponent).toNat, Nat.pow_pos (by decide),
      ?_, by rw [if_neg he]⟩
    rw [hvalue, hexp, zpow_neg, zpow_natCast, ← div_eq_mul_inv]
    simp

theorem Decimal.value_pos {d : Decimal} : 0 < d.value ↔ 0 < d.digits := by
  rw [value, mul_pos_iff_of_pos_right (zpow_pos (by norm_num) _), Nat.cast_pos]

/-- A decimal in the interval of a double is read as this double. -/
theorem Decimal.ofFloat_toFloat {d : Decimal} (h : IsDouble m q) (hm : 0 < m)
    (hv : Rounds m q d.value) :
    ofFloat d.toFloat = .finite false m q := by
  obtain ⟨hlow, hhigh⟩ := hv.bounds h hm
  have hpos : 0 < d.digits := value_pos.mp ((zpow_pos (by norm_num) _).trans_le hlow)
  have hmost : ¬ d.point > 400 := fun hlt =>
    absurd hhigh (not_lt.mpr ((Decimal.lt_point_iff hpos 400).mp hlt))
  have hleast : ¬ d.point < -400 := by
    have := (Decimal.lt_point_iff hpos (-401)).mpr hlow
    omega
  obtain ⟨num, den, hden, hquotient, hfloat⟩ := d.exists_quotient
  have hnum : 0 < num := by
    have hvalue := value_pos.mpr hpos
    rw [← hquotient, div_pos_iff_of_pos_right (by exact_mod_cast hden)] at hvalue
    exact_mod_cast hvalue
  rw [hfloat, if_neg (by simpa using hpos.ne'), if_neg hmost, if_neg hleast]
  exact ofFloat_nearestFloat h hnum hden (hquotient ▸ hv)

/-! ### Equal quotients -/

theorem roundedQuotient_mul_left {k : Nat} (hk : 0 < k) (num den : Nat) :
    roundedQuotient (k * num) (k * den) = roundedQuotient num den := by
  have htwice (r : Nat) : 2 * (k * r) = k * (2 * r) := Nat.mul_left_comm ..
  have hlt (r : Nat) : k * r > k * den ↔ r > den := Nat.mul_lt_mul_left hk
  have heq (r : Nat) : (k * r == k * den) = (r == den) := by
    rw [Bool.eq_iff_iff, beq_iff_eq, beq_iff_eq, Nat.mul_right_inj hk.ne']
  unfold roundedQuotient
  rw [Nat.mul_div_mul_left _ _ hk, Nat.mul_mod_mul_left]
  simp only [htwice, hlt, heq]

theorem scaledBy_mul_left (k num den : Nat) (e : Int) :
    scaledBy (k * num) (k * den) e = (k * (scaledBy num den e).1, k * (scaledBy num den e).2) := by
  unfold scaledBy
  split <;> simp only [Nat.mul_assoc]

/-- The exponent of a rounded quotient depends on its value only, and so does the significand. -/
theorem nearestBits_mul_left {k num den : Nat} (hk : 0 < k) (hden : 0 < den) :
    nearestBits (k * num) (k * den) = nearestBits num den := by
  rcases Nat.eq_zero_or_pos num with rfl | hnum
  · rw [Nat.mul_zero, nearestBits, nearestBits, beq_self_eq_true, if_pos rfl, if_pos rfl]
  · have hnum' := Nat.mul_pos hk hnum
    unfold nearestBits
    rw [if_neg (by simpa using hnum'.ne'), if_neg (by simpa using hnum.ne')]
    dsimp only
    generalize hguess : max (((k * num).log2 : Int) - (k * den).log2 - 53) (-1074) = guess
    generalize hguess' : max ((num.log2 : Int) - den.log2 - 53) (-1074) = guess'
    have hfits := fitsAt_guess hnum' (Nat.mul_pos hk hden) hguess.symm
    have hfits' := fitsAt_guess hnum hden hguess'.symm
    rw [Nat.cast_mul, Nat.cast_mul, mul_div_mul_left _ _ (by exact_mod_cast hk.ne')] at hfits
    rw [hfits.unique hfits', scaledBy_mul_left, roundedQuotient_mul_left hk]

theorem nearestBits_congr {num den num' den' : Nat} (hden : 0 < den) (hden' : 0 < den')
    (h : (num : ℚ) / den = num' / den') : nearestBits num den = nearestBits num' den' := by
  have hcross : den' * num = den * num' := by
    rw [div_eq_div_iff (by exact_mod_cast hden.ne') (by exact_mod_cast hden'.ne')] at h
    rw [Nat.mul_comm den', Nat.mul_comm den]
    exact_mod_cast h
  have hscaled : nearestBits (den' * num) (den' * den) = nearestBits num den :=
    nearestBits_mul_left hden' hden
  have hscaled' : nearestBits (den * num') (den * den') = nearestBits num' den' :=
    nearestBits_mul_left hden hden'
  rw [← hscaled, ← hscaled', hcross, Nat.mul_comm den' den]

/-- Decimals of one value are read alike. -/
theorem Decimal.toFloat_congr {d d' : Decimal} (h : d.value = d'.value) :
    d.toFloat = d'.toFloat := by
  obtain ⟨num, den, hden, hquotient, hfloat⟩ := d.exists_quotient
  obtain ⟨num', den', hden', hquotient', hfloat'⟩ := d'.exists_quotient
  have hdigits : 0 < d.digits ↔ 0 < d'.digits := by rw [← value_pos, h, value_pos]
  rw [hfloat, hfloat']
  rcases Nat.eq_zero_or_pos d.digits with hzero | hpos
  · have hzero' : d'.digits = 0 := by omega
    rw [hzero, hzero', beq_self_eq_true, if_pos rfl, if_pos rfl]
  · have hpos' := hdigits.mp hpos
    have hpoint (e : Int) : e < d.point ↔ e < d'.point := by
      rw [lt_point_iff hpos, lt_point_iff hpos', h]
    have hpoint : d.point = d'.point := by
      have := hpoint d.point
      have := hpoint d'.point
      omega
    have hnearest : nearestFloat false num den = nearestFloat false num' den' := by
      unfold nearestFloat
      rw [nearestBits_congr hden hden' (hquotient.trans (h.trans hquotient'.symm))]
    have hne : (d.digits == 0) = false := by simpa using hpos.ne'
    have hne' : (d'.digits == 0) = false := by simpa using hpos'.ne'
    rw [hne, hne', hpoint, hnearest]

end ScriptEngine
