import Mathlib.Algebra.Order.Field.Power
import Mathlib.Tactic.Linarith
import Mathlib.Tactic.NormNum
import Mathlib.Tactic.Ring
import ScriptEngine.Number.Shortest
import ScriptEngine.Proofs.Number.Value

/-!
# Shortest decimals

The search for the shortest decimal of a double ends: at seventeen digits the grid of decimals is
finer than the interval of the reals that round to the double.  What it finds lies in this interval,
has the decimal magnitude of the double, and does not end in a zero.

## Main definitions

* `Binary64.IsDouble` : the significands and exponents of finite doubles.
* `Decimal.value` : the number that a decimal stands for.
* `Rounding.Spans` : the rational bounds of an interval.

## Main statements

* `decimalMagnitude_spec` : the decimal magnitude of a double.
* `exists_onGrid` : the search for the shortest decimal of a double ends.
* `shortest_spec` : what it finds.
-/

namespace ScriptEngine

/-! ### Finite doubles -/

namespace Binary64

/-- The significands and exponents of finite doubles. -/
structure IsDouble (m : Nat) (q : Int) : Prop where
  significand : m < 2 ^ 53
  least : -1074 ≤ q
  most : q ≤ 971
  normal : 2 ^ 52 ≤ m ∨ q = -1074

theorem isDouble_of_ofBits {bits m : Nat} {q : Int} {negative : Bool}
    (h : ofBits bits = .finite negative m q) : IsDouble m q := by
  have hbiased : bits / 2 ^ 52 % 2 ^ 11 < 2 ^ 11 := Nat.mod_lt _ (by decide)
  have hfraction : bits % 2 ^ 52 < 2 ^ 52 := Nat.mod_lt _ (by decide)
  unfold ofBits at h
  change (if (bits / 2 ^ 52 % 2 ^ 11 == 2047) = true then
    if (bits % 2 ^ 52 == 0) = true then Binary64.infinite _ else Binary64.nan
    else if (bits / 2 ^ 52 % 2 ^ 11 == 0) = true then Binary64.finite _ (bits % 2 ^ 52) (-1074)
    else Binary64.finite _ (2 ^ 52 + bits % 2 ^ 52)
      ((bits / 2 ^ 52 % 2 ^ 11 : Nat) - 1075)) = _ at h
  split at h
  · split at h <;> cases h
  · next hmax =>
    simp only [beq_iff_eq] at hmax
    split at h
    · cases h
      exact ⟨by omega, by decide, by decide, .inr rfl⟩
    · next hzero =>
      simp only [beq_iff_eq] at hzero
      cases h
      exact ⟨by omega, by omega, by omega, .inl (by omega)⟩

theorem isDouble_of_ofFloat {x : Float} {m : Nat} {q : Int} {negative : Bool}
    (h : ofFloat x = .finite negative m q) : IsDouble m q :=
  isDouble_of_ofBits h

end Binary64

open Binary64

/-! ### Decimals -/

namespace Decimal

/-- The number that a decimal stands for. -/
def value (d : Decimal) : ℚ :=
  d.digits * 10 ^ d.exponent

/-- Zeros at the end are moved into the exponent, and if there is fuel for them all none is left. -/
theorem strip_spec {fuel : Nat} {d : Decimal} (hpos : 0 < d.digits) (hfuel : d.digits < 10 ^ fuel) :
    (d.strip fuel).value = d.value ∧ (d.strip fuel).digits % 10 ≠ 0 ∧
      (d.strip fuel).digits ≤ d.digits := by
  induction fuel generalizing d with
  | zero => omega
  | succ fuel ih =>
    rw [strip]
    split
    · next h =>
      simp only [Bool.and_eq_true, bne_iff_ne, beq_iff_eq] at h
      rw [pow_succ] at hfuel
      obtain ⟨hvalue, hlast, hle⟩ := @ih ⟨d.digits / 10, d.exponent + 1⟩ (by dsimp only; omega)
        (by dsimp only; omega)
      refine ⟨?_, hlast, hle.trans (Nat.div_le_self ..)⟩
      have hdigits : d.digits = d.digits / 10 * 10 := by omega
      rw [hvalue, value, value, zpow_add_one₀ (by norm_num)]
      conv_rhs => rw [hdigits]
      push_cast
      ring
    · next h =>
      simp only [Bool.and_eq_true, bne_iff_ne, beq_iff_eq, not_and] at h
      exact ⟨rfl, h (by omega), le_rfl⟩

end Decimal

/-! ### Intervals -/

namespace Rounding

/-- The bounds of an interval and its value as rational numbers. -/
structure Spans (r : Rounding) (low value high : ℚ) : Prop where
  unit : 0 < (r.unit : ℚ)
  low : (r.low : ℚ) = low * r.unit
  value : (r.value : ℚ) = value * r.unit
  high : (r.high : ℚ) = high * r.unit

variable {r : Rounding} {low value high : ℚ}

theorem pow_toNat (b : ℚ) (hb : b ≠ 0) (e : Int) : b ^ e.toNat = b ^ e * b ^ (-e).toNat := by
  rcases le_total 0 e with he | he
  · obtain ⟨n, rfl⟩ := Int.eq_ofNat_of_zero_le he
    simp
  · obtain ⟨n, rfl⟩ := Int.exists_eq_neg_ofNat he
    simp [hb]

theorem Spans.scale (h : r.Spans low value high) (e : Int) :
    (r.scale e).Spans (low * 10 ^ e) (value * 10 ^ e) (high * 10 ^ e) := by
  have hpow := pow_toNat 10 (by norm_num) e
  have hunit : ((r.scale e).unit : ℚ) = r.unit * 10 ^ (-e).toNat := by
    simp [Rounding.scale]
  refine ⟨?_, ?_, ?_, ?_⟩
  · rw [hunit]
    exact mul_pos h.unit (by positivity)
  all_goals
    rw [hunit]
    simp only [Rounding.scale, Nat.pow_eq, Nat.cast_mul, Nat.cast_pow, Nat.cast_ofNat, hpow,
      h.low, h.value, h.high]
    ring

/-- A natural strictly inside the interval lies in it. -/
theorem Spans.contains_of_lt (h : r.Spans low value high) {n : Nat} (hlow : low < n)
    (hhigh : n < high) :
    r.contains n = true := by
  have hlow : r.low < n * r.unit := by
    have := mul_lt_mul_of_pos_right hlow h.unit
    rw [← h.low] at this
    exact_mod_cast this
  have hhigh : n * r.unit < r.high := by
    have := mul_lt_mul_of_pos_right hhigh h.unit
    rw [← h.high] at this
    exact_mod_cast this
  unfold contains
  dsimp only
  split <;> simp [hlow, hhigh, hlow.le, hhigh.le]

theorem Spans.of_contains (h : r.Spans low value high) {n : Nat} (hn : r.contains n = true) :
    low ≤ n ∧ (n : ℚ) ≤ high := by
  have hle : r.low ≤ n * r.unit ∧ n * r.unit ≤ r.high := by
    unfold contains at hn
    dsimp only at hn
    split at hn <;> simp only [Bool.and_eq_true, decide_eq_true_eq] at hn
    · exact hn
    · exact ⟨hn.1.le, hn.2.le⟩
  constructor
  · refine le_of_mul_le_mul_right ?_ h.unit
    rw [← h.low]
    exact_mod_cast hle.1
  · refine le_of_mul_le_mul_right ?_ h.unit
    rw [← h.high]
    exact_mod_cast hle.2

/-- The ends do not lie in an interval that is not closed. -/
theorem Spans.strict_of_contains (h : r.Spans low value high) (hopen : r.closed = false) {n : Nat}
    (hn : r.contains n = true) : low < n ∧ (n : ℚ) < high := by
  have hlt : r.low < n * r.unit ∧ n * r.unit < r.high := by
    simpa [contains, hopen] using hn
  constructor
  · refine lt_of_mul_lt_mul_right ?_ h.unit.le
    rw [← h.low]
    exact_mod_cast hlt.1
  · refine lt_of_mul_lt_mul_right ?_ h.unit.le
    rw [← h.high]
    exact_mod_cast hlt.2

/-- The natural below the value. -/
theorem Spans.floor (h : r.Spans low value high) :
    ((r.value / r.unit : Nat) : ℚ) ≤ value ∧ value < (r.value / r.unit : Nat) + 1 := by
  have hpos : 0 < r.unit := by exact_mod_cast h.unit
  constructor
  · refine le_of_mul_le_mul_right ?_ h.unit
    rw [← h.value]
    exact_mod_cast Nat.div_mul_le_self r.value r.unit
  · refine lt_of_mul_lt_mul_right ?_ h.unit.le
    rw [← h.value]
    rw [mul_comm]
    exact_mod_cast Nat.lt_mul_div_succ r.value hpos

/-- A neighbour that is found lies in the interval. -/
theorem nearest?_eq_some {n : Nat} (h : r.nearest? = some n) :
    r.contains n = true ∧ (n = r.value / r.unit ∨ n = r.value / r.unit + 1) := by
  unfold nearest? at h
  dsimp only at h
  split at h
  · next h₁ h₂ =>
    split at h <;> cases h
    · exact ⟨h₁, .inl rfl⟩
    · exact ⟨h₂, .inr rfl⟩
  · next h₁ _ =>
    cases h
    exact ⟨h₁, .inl rfl⟩
  · next _ h₂ =>
    cases h
    exact ⟨h₂, .inr rfl⟩
  · cases h

theorem of_nearest?_eq_none (h : r.nearest? = none) : r.contains (r.value / r.unit) = false := by
  unfold nearest? at h
  dsimp only at h
  split at h
  · cases h
  · cases h
  · cases h
  · next hfloor _ => exact hfloor

/-- In an interval longer than one a neighbour is found. -/
theorem Spans.exists_nearest? (h : r.Spans low value high) (hlow : low < value)
    (hhigh : value < high) (hlong : low + 1 < high) : ∃ n, r.nearest? = some n := by
  obtain ⟨hfloor, hnext⟩ := h.floor
  have hone : r.contains (r.value / r.unit) = true ∨ r.contains (r.value / r.unit + 1) = true := by
    rcases lt_or_ge low (r.value / r.unit : Nat) with hin | hout
    · exact .inl (h.contains_of_lt hin (hfloor.trans_lt hhigh))
    · refine .inr (h.contains_of_lt ?_ ?_)
      · push_cast
        exact hlow.trans hnext
      · push_cast
        linarith
  unfold nearest?
  dsimp only
  split
  · exact ⟨_, rfl⟩
  · exact ⟨_, rfl⟩
  · exact ⟨_, rfl⟩
  · next h₁ h₂ => simp [h₁, h₂] at hone

/-- How far below a double its interval reaches, in quarters of its unit. -/
def quarters (m : Nat) (q : Int) : Nat :=
  if m = 2 ^ 52 ∧ -1074 < q then 1 else 2

/-- The interval of a double. -/
theorem spans_ofParts {m : Nat} (hm : 0 < m) (q : Int) :
    (ofParts m q).Spans ((m - quarters m q / 4) * 2 ^ q) (m * 2 ^ q) ((m + 1 / 2) * 2 ^ q) := by
  have hpow := pow_toNat 2 (by norm_num) q
  have hbelow : (if (m == Nat.pow 2 52 && decide (q > -1074)) = true then 1 else 2) =
      quarters m q := by
    simp only [quarters, Bool.and_eq_true, beq_iff_eq, decide_eq_true_eq]
    rfl
  have hle : quarters m q ≤ 4 * m := by
    unfold quarters
    split <;> omega
  have hunit : ((ofParts m q).unit : ℚ) = 4 * 2 ^ (-q).toNat := by
    simp [ofParts]
  refine ⟨?_, ?_, ?_, ?_⟩
  · rw [hunit]
    positivity
  · rw [hunit]
    simp only [ofParts, hbelow, Nat.pow_eq, Nat.cast_mul, Nat.cast_pow, Nat.cast_ofNat, hpow,
      Nat.cast_sub hle]
    ring
  · rw [hunit]
    simp only [ofParts, Nat.pow_eq, Nat.cast_mul, Nat.cast_pow, Nat.cast_ofNat, hpow]
    ring
  · rw [hunit]
    simp only [ofParts, Nat.pow_eq, Nat.cast_mul, Nat.cast_add, Nat.cast_pow, Nat.cast_ofNat, hpow]
    ring

/-- A power of ten is at most the value if the scaled value is at least one. -/
theorem Spans.fits_iff (h : r.Spans low value high) (e : Int) :
    (r.scale (-e)).unit ≤ (r.scale (-e)).value ↔ (10 : ℚ) ^ e ≤ value := by
  have hscaled := h.scale (-e)
  have hten : (0 : ℚ) < 10 ^ e := by positivity
  rw [← Nat.cast_le (α := ℚ), hscaled.value, le_mul_iff_one_le_left hscaled.unit, zpow_neg,
    ← div_eq_mul_inv, le_div_iff₀ hten, one_mul]

end Rounding

/-! ### Magnitudes -/

/-- Powers of two and of ten beside each other, as far as doubles reach. -/
theorem two_pow_bounds {b : Nat} (hb : b < 1100) : 10 ^ (b * 30103 / 100000) ≤ 10 * 2 ^ (b + 1) ∧
    2 ^ (b + 2) ≤ 10 ^ (b * 30103 / 100000 + 3) ∧
    2 ^ b ≤ 2 * 10 ^ ((b * 30103 + 99999) / 100000 + 1) ∧
    4 * 10 ^ ((b * 30103 + 99999) / 100000) ≤ 1000 * 2 ^ b := by
  have hall : (List.range 1100).all (fun b => decide (10 ^ (b * 30103 / 100000) ≤ 10 * 2 ^ (b + 1) ∧
      2 ^ (b + 2) ≤ 10 ^ (b * 30103 / 100000 + 3) ∧
      2 ^ b ≤ 2 * 10 ^ ((b * 30103 + 99999) / 100000 + 1) ∧
      4 * 10 ^ ((b * 30103 + 99999) / 100000) ≤ 1000 * 2 ^ b)) = true := by
    decide +kernel
  exact of_decide_eq_true (List.all_eq_true.mp hall b (List.mem_range.mpr hb))

/-- The estimate of a decimal magnitude from a binary one is at most three too small. -/
theorem guess_spec {b : Int} (hlow : -1100 < b) (hhigh : b < 1100) :
    (10 : ℚ) ^ ((b * 30103).fdiv 100000 - 1) ≤ 2 ^ (b + 1) ∧
      (2 : ℚ) ^ (b + 2) ≤ 10 ^ ((b * 30103).fdiv 100000 - 1 + 4) := by
  rw [Int.fdiv_eq_ediv_of_nonneg _ (by decide)]
  rcases le_total 0 b with hb | hb
  · obtain ⟨n, rfl⟩ := Int.eq_ofNat_of_zero_le hb
    obtain ⟨hbelow, habove, -, -⟩ := two_pow_bounds (b := n) (by omega)
    have hdiv : (n : Int) * 30103 / 100000 = ((n * 30103 / 100000 : Nat) : Int) := by omega
    rw [hdiv]
    generalize n * 30103 / 100000 = g at *
    constructor
    · rw [zpow_sub_one₀ (by norm_num), ← div_eq_mul_inv, div_le_iff₀ (by norm_num), mul_comm]
      exact_mod_cast hbelow
    · rw [show (g : Int) - 1 + 4 = ((g + 3 : Nat) : Int) by push_cast; ring]
      exact_mod_cast habove
  · obtain ⟨n, rfl⟩ := Int.exists_eq_neg_ofNat hb
    obtain ⟨-, -, hbelow, habove⟩ := two_pow_bounds (b := n) (by omega)
    have hdiv : -(n : Int) * 30103 / 100000 = -((n * 30103 + 99999) / 100000 : Nat) := by omega
    rw [hdiv]
    generalize (n * 30103 + 99999) / 100000 = g at *
    have htwo : (0 : ℚ) < 2 ^ n := by positivity
    constructor
    · have hten : (10 : ℚ) ^ (-(g : Int) - 1) = 1 / 10 ^ (g + 1) := by
        rw [show -(g : Int) - 1 =
          -((g + 1 : Nat) : Int) by push_cast; ring, zpow_neg, zpow_natCast, one_div]
      have hhalf : (2 : ℚ) ^ (-(n : Int) + 1) = 2 / 2 ^ n := by
        rw [zpow_add_one₀ (by norm_num), zpow_neg, zpow_natCast, inv_mul_eq_div]
      rw [hten, hhalf, div_le_div_iff₀ (by positivity) htwo, one_mul]
      exact_mod_cast hbelow
    · have hten : (10 : ℚ) ^ (-(g : Int) - 1 + 4) = 1000 / 10 ^ g := by
        rw [show -(g : Int) - 1 + 4 = -(g : Int) +
          (3 : Nat) by push_cast; ring, zpow_add₀ (by norm_num),
          zpow_neg, zpow_natCast, zpow_natCast, inv_mul_eq_div]
        norm_num
      have hquarter : (2 : ℚ) ^ (-(n : Int) + 2) = 4 / 2 ^ n := by
        rw [show (-(n : Int) + 2) = -(n : Int) +
          (2 : Nat) by push_cast; ring, zpow_add₀ (by norm_num),
          zpow_neg, zpow_natCast, zpow_natCast, inv_mul_eq_div]
        norm_num
      rw [hten, hquarter, div_le_div_iff₀ htwo (by positivity)]
      exact_mod_cast habove

/-- The binary magnitude of a quotient by a power of two. -/
theorem log2_spec {v n : Nat} (hv : v ≠ 0) :
    (2 : ℚ) ^ ((v.log2 : Int) - n) ≤ v / 2 ^ n ∧
    (v : ℚ) / 2 ^ n < 2 ^ ((v.log2 : Int) - n + 1) := by
  have hpow : (0 : ℚ) < 2 ^ n := by positivity
  have hlow : ((2 : ℚ) ^ v.log2) ≤ v := by exact_mod_cast Nat.log2_self_le hv
  have hhigh : (v : ℚ) < 2 ^ v.log2 * 2 := by exact_mod_cast Nat.lt_log2_self
  rw [zpow_add_one₀ (by norm_num), zpow_sub₀ (by norm_num), zpow_natCast, zpow_natCast]
  refine ⟨div_le_div_of_nonneg_right hlow hpow.le, ?_⟩
  rw [div_mul_eq_mul_div]
  exact div_lt_div_of_pos_right hhigh hpow

section

variable {m : Nat} {q : Int}

/-- The value of a double lies between those of the least and the greatest one. -/
theorem Binary64.IsDouble.bounds (h : IsDouble m q) (hm : 0 < m) :
    (2 : ℚ) ^ (-1074 : Int) ≤ m * 2 ^ q ∧ (m : ℚ) * 2 ^ q < 2 ^ (1024 : Int) := by
  have hpow : (0 : ℚ) < 2 ^ q := zpow_pos (by norm_num) q
  constructor
  · calc (2 : ℚ) ^ (-1074 : Int) ≤ 2 ^ q := zpow_le_zpow_right₀ (by norm_num) h.least
      _ ≤ m * 2 ^ q := le_mul_of_one_le_left hpow.le (by exact_mod_cast hm)
  · have hlt : (m : ℚ) < 2 ^ (53 : Int) := by exact_mod_cast h.significand
    calc (m : ℚ) * 2 ^ q < 2 ^ (53 : Int) * 2 ^ q := mul_lt_mul_of_pos_right hlt hpow
      _ = 2 ^ (53 + q) := (zpow_add₀ (by norm_num) _ _).symm
      _ ≤ 2 ^ (1024 : Int) := zpow_le_zpow_right₀ (by norm_num) (by linarith [h.most])

/-- The decimal magnitude of a double. -/
theorem decimalMagnitude_spec (h : IsDouble m q) (hm : 0 < m) :
    (10 : ℚ) ^ decimalMagnitude (Rounding.ofParts m q) ≤ m * 2 ^ q ∧
      (m : ℚ) * 2 ^ q < 10 ^ (decimalMagnitude (Rounding.ofParts m q) + 1) := by
  have hspans := Rounding.spans_ofParts hm q
  obtain ⟨hleast, hmost⟩ := h.bounds hm
  set r := Rounding.ofParts m q with hr
  obtain ⟨n, hn⟩ : ∃ n, r.unit = 2 ^ n := ⟨2 + (-q).toNat, by simp [hr, Rounding.ofParts, pow_add]⟩
  have hvalue : (m : ℚ) * 2 ^ q = r.value / 2 ^ n := by
    rw [eq_div_iff (by positivity), hspans.value, hn]
    push_cast
    rfl
  have hne : r.value ≠ 0 := by
    simp only [hr, Rounding.ofParts, Nat.pow_eq]
    positivity
  obtain ⟨hlow, hhigh⟩ := log2_spec (n := n) hne
  rw [← hvalue] at hlow hhigh
  have hlog : r.unit.log2 = n := by rw [hn, Nat.log2_two_pow]
  generalize hb : (r.value.log2 : Int) - n - 1 = b
  have hb' : (r.value.log2 : Int) - n = b + 1 := by omega
  rw [hb'] at hlow hhigh
  have hblow : -1074 < b + 1 + 1 :=
    (zpow_lt_zpow_iff_right₀ (by norm_num)).mp (hleast.trans_lt hhigh)
  have hbhigh : b + 1 < 1024 := (zpow_lt_zpow_iff_right₀ (by norm_num)).mp (hlow.trans_lt hmost)
  obtain ⟨hguess, hfour⟩ := guess_spec (b := b) (by omega) (by omega)
  have hbelow := hguess.trans hlow
  have habove :=
    hhigh.trans_le ((by rw [add_assoc]; rfl : (2 : ℚ) ^ (b + 1 + 1) = 2 ^ (b + 2)).le.trans hfour)
  have hfits := hspans.fits_iff
  unfold decimalMagnitude
  dsimp only
  rw [hlog, hb]
  generalize (b * 30103).fdiv 100000 - 1 = g at *
  simp only [hfits, decide_eq_true_eq]
  split
  · next h₃ => exact ⟨h₃, by rwa [add_assoc]⟩
  · next h₃ =>
    split
    · next h₂ => exact ⟨h₂, by rw [add_assoc]; exact not_le.mp h₃⟩
    · next h₂ =>
      split
      · next h₁ => exact ⟨h₁, by rw [add_assoc]; exact not_le.mp h₂⟩
      · next h₁ => exact ⟨hbelow, not_le.mp h₁⟩

end

/-! ### The search -/

/-- The search takes the first grid on which a neighbour is found. -/
theorem shortestFrom_eq {r : Rounding} {magnitude : Int}
    (hlast : ∃ n, (r.scale (16 - magnitude)).nearest? = some n) :
    ∀ fuel : Nat, 0 < fuel → fuel ≤ 17 →
    ∃ j n : Nat, j ≤ 16 ∧ (r.scale (j - magnitude)).nearest? = some n ∧
      shortestFrom r magnitude fuel = (Decimal.mk n (magnitude - j)).strip 20 ∧
      ∀ i : Nat, 17 - fuel ≤ i → i < j → (r.scale (i - magnitude)).nearest? = none
  | fuel + 1, _, hfuel => by
    obtain ⟨j, hj⟩ : ∃ j, j = 16 - fuel := ⟨_, rfl⟩
    have hplace : magnitude - (17 - ((fuel : Int) + 1)) = magnitude - j := by omega
    have hscale : -(magnitude - (j : Int)) = j - magnitude := by ring
    rw [shortestFrom, hplace, hscale]
    cases hnear : (r.scale (j - magnitude)).nearest? with
    | some n =>
      exact ⟨j, n, by omega, hnear, rfl, fun i hi hij => absurd hij (by omega)⟩
    | none =>
      have hpos : 0 < fuel := by
        by_contra h
        obtain ⟨n, hn⟩ := hlast
        rw [show (16 : Int) = (j : Int) by omega, hnear] at hn
        cases hn
      obtain ⟨j', n, hj', hn, heq, hnone⟩ := shortestFrom_eq hlast fuel hpos (by omega)
      refine ⟨j', n, hj', hn, heq, fun i hi hij => ?_⟩
      rcases Nat.lt_or_ge i (17 - fuel) with hlt | hge
      · obtain rfl : i = j := by omega
        exact hnear
      · exact hnone i hge hij

section

variable {m : Nat} {q : Int}

/-- A grid of seventeen digits is finer than the interval of a double. -/
theorem exists_nearest?_last (h : IsDouble m q) (hm : 0 < m) :
    ∃ n, ((Rounding.ofParts m q).scale (16 - decimalMagnitude (Rounding.ofParts m q))).nearest? =
      some n := by
  have hspans := Rounding.spans_ofParts hm q
  obtain ⟨hmagnitude, -⟩ := decimalMagnitude_spec h hm
  generalize decimalMagnitude (Rounding.ofParts m q) = magnitude at *
  have htwo : (0 : ℚ) < 2 ^ q := zpow_pos (by norm_num) q
  have hten : (0 : ℚ) < 10 ^ magnitude := zpow_pos (by norm_num) magnitude
  have hscale : (10 : ℚ) ^ (16 - magnitude) = 10 ^ 16 / 10 ^ magnitude := by
    rw [zpow_sub₀ (by norm_num)]
    norm_cast
  have hpos : (0 : ℚ) < 10 ^ (16 - magnitude) := zpow_pos (by norm_num) _
  -- The interval is as long as the unit in the last place, or three quarters of it at a power of
  -- two.
  have hquarters : (0 : ℚ) < (Rounding.quarters m q : ℚ) ∧
      (m : ℚ) < 10 ^ 16 * (1 / 2 + Rounding.quarters m q / 4) := by
    have hlt : (m : ℚ) < 2 ^ 53 := by exact_mod_cast h.significand
    unfold Rounding.quarters
    split
    · next hpower =>
      rw [hpower.1]
      norm_num
    · refine ⟨by norm_num, hlt.trans ?_⟩
      norm_num
  refine (hspans.scale _).exists_nearest? ?_ ?_ ?_
  · refine mul_lt_mul_of_pos_right (mul_lt_mul_of_pos_right ?_ htwo) hpos
    linarith [hquarters.1]
  · refine mul_lt_mul_of_pos_right (mul_lt_mul_of_pos_right ?_ htwo) hpos
    linarith
  · rw [hscale]
    have hlong : 10 ^ magnitude < 10 ^ 16 * (1 / 2 + Rounding.quarters m q / 4) * (2 : ℚ) ^ q :=
      hmagnitude.trans_lt (mul_lt_mul_of_pos_right hquarters.2 htwo)
    have hone : 1 < 10 ^ 16 * (1 / 2 + (Rounding.quarters m q : ℚ) / 4) *
        2 ^ q / 10 ^ magnitude := by
      rwa [one_lt_div hten]
    calc _ < (m - (Rounding.quarters m q : ℚ) / 4) * 2 ^ q * (10 ^ 16 / 10 ^ magnitude) +
          10 ^ 16 * (1 / 2 + (Rounding.quarters m q : ℚ) / 4) * 2 ^ q / 10 ^ magnitude :=
          add_lt_add_right hone _
      _ = (m + 1 / 2) * 2 ^ q * (10 ^ 16 / 10 ^ magnitude) := by ring

/-- The shortest decimal of a double is `n · 10 ^ (magnitude - j)`, without the zeros at the end, on
the first grid that has a neighbour of the double in its interval. -/
structure OnGrid (m : Nat) (q magnitude : Int) (j n : Nat) : Prop where
  digits : j ≤ 16
  eq : shortest m q = (Decimal.mk n (magnitude - j)).strip 20
  between : 10 ^ j ≤ n ∧ n ≤ 10 ^ (j + 1)
  inside : (m - Rounding.quarters m q / 4) * 2 ^ q ≤ (Decimal.mk n (magnitude - j)).value ∧
    (Decimal.mk n (magnitude - j)).value ≤ (m + 1 / 2) * 2 ^ q
  strict : m % 2 = 1 → (m - Rounding.quarters m q / 4) * 2 ^ q <
    (Decimal.mk n (magnitude - j)).value ∧
    (Decimal.mk n (magnitude - j)).value < (m + 1 / 2) * 2 ^ q
  first : ∀ i < j, ((Rounding.ofParts m q).scale (i - magnitude)).nearest? = none

/-- The search for the shortest decimal of a double ends. -/
theorem exists_onGrid (h : IsDouble m q) (hm : 0 < m) :
    ∃ j n, OnGrid m q (decimalMagnitude (Rounding.ofParts m q)) j n := by
  obtain ⟨j, n, hj, hn, heq, hnone⟩ :=
    shortestFrom_eq (exists_nearest?_last h hm) 17 (by decide) le_rfl
  obtain ⟨hlow, hhigh⟩ := decimalMagnitude_spec h hm
  have hscaled := (Rounding.spans_ofParts hm q).scale (j - decimalMagnitude (Rounding.ofParts m q))
  obtain ⟨hcontains, hneighbour⟩ := Rounding.nearest?_eq_some hn
  obtain ⟨hinlow, hinhigh⟩ := hscaled.of_contains hcontains
  obtain ⟨hfloor, hnext⟩ := hscaled.floor
  have hstrict (hodd : m % 2 = 1) := hscaled.strict_of_contains
    (show (Rounding.ofParts m q).closed = false by simp [Rounding.ofParts, hodd]) hcontains
  refine ⟨j, n, hj, heq, ?_, ?_, ?_, fun i hi => hnone i (by omega) hi⟩
  all_goals
    clear heq hnone hn hcontains
    generalize decimalMagnitude (Rounding.ofParts m q) = magnitude at *
    have hscale : (0 : ℚ) < 10 ^ (j - magnitude) := zpow_pos (by norm_num) _
    have hvalue : (Decimal.mk n (magnitude - j)).value * 10 ^ (j - magnitude) = n := by
      rw [Decimal.value, mul_assoc, ← zpow_add₀ (by norm_num)]
      simp
  · -- On this grid the double lies between two powers of ten, and so do its neighbours.
    have hv := mul_le_mul_of_nonneg_right hlow hscale.le
    have hv' := mul_lt_mul_of_pos_right hhigh hscale
    rw [← zpow_add₀ (by norm_num),
      show magnitude + (j - magnitude) = (j : Int) by ring, zpow_natCast] at hv
    rw [← zpow_add₀ (by norm_num), show magnitude + 1 + (j - magnitude) = ((j + 1 : Nat) : Int) by
      push_cast; ring, zpow_natCast] at hv'
    have hbelow := hv.trans_lt hnext
    have habove := hfloor.trans_lt hv'
    norm_cast at hbelow habove
    omega
  · exact ⟨le_of_mul_le_mul_right (hinlow.trans_eq hvalue.symm) hscale,
      le_of_mul_le_mul_right (hvalue.trans_le hinhigh) hscale⟩
  · intro hodd
    obtain ⟨hlow, hhigh⟩ := hstrict hodd
    exact ⟨lt_of_mul_lt_mul_right (hlow.trans_eq hvalue.symm) hscale.le,
      lt_of_mul_lt_mul_right (hvalue.trans_lt hhigh) hscale.le⟩

theorem OnGrid.strip_spec {magnitude : Int} {j n : Nat} (h : OnGrid m q magnitude j n) :
    (shortest m q).value = (Decimal.mk n (magnitude - j)).value ∧ (shortest m q).digits % 10 ≠ 0 ∧
      (shortest m q).digits ≤ n := by
  rw [h.eq]
  have hmost : n ≤ 10 ^ 17 :=
    h.between.2.trans (Nat.pow_le_pow_right (by decide) (by have := h.digits; omega))
  exact Decimal.strip_spec ((Nat.pow_pos (by decide)).trans_le h.between.1)
    (hmost.trans_lt (by decide))

/-- What is known of the shortest decimal of a double. -/
structure IsShortest (m : Nat) (q : Int) (d : Decimal) : Prop where
  last : d.digits % 10 ≠ 0
  length : d.digits < 10 ^ 17
  magnitude : (10 : ℚ) ^ decimalMagnitude (Rounding.ofParts m q) ≤ d.value ∧
    d.value ≤ 10 ^ (decimalMagnitude (Rounding.ofParts m q) + 1)
  inside : (m - Rounding.quarters m q / 4) * 2 ^ q ≤ d.value ∧ d.value ≤ (m + 1 / 2) * 2 ^ q

/-- The shortest decimal lies in the interval of the double, has its magnitude and does not end in a
zero. -/
theorem shortest_spec (h : IsDouble m q) (hm : 0 < m) : IsShortest m q (shortest m q) := by
  obtain ⟨j, n, hgrid⟩ := exists_onGrid h hm
  obtain ⟨hvalue, hlast, hle⟩ := hgrid.strip_spec
  refine ⟨hlast, ?_, ?_, hvalue ▸ hgrid.inside⟩
  · have hmost : n ≤ 10 ^ 17 :=
      hgrid.between.2.trans (Nat.pow_le_pow_right (by decide) (by have := hgrid.digits; omega))
    refine lt_of_le_of_ne (hle.trans hmost) fun hten => ?_
    rw [hten] at hlast
    exact hlast (by decide)
  · generalize decimalMagnitude (Rounding.ofParts m q) = magnitude at *
    have hbetween : (10 : ℚ) ^ j ≤ n ∧ (n : ℚ) ≤ 10 ^ (j + 1) := by exact_mod_cast hgrid.between
    have hscale : (0 : ℚ) ≤ 10 ^ (magnitude - j) := (zpow_pos (by norm_num) _).le
    rw [hvalue, Decimal.value]
    constructor
    · calc (10 : ℚ) ^ magnitude = 10 ^ j * 10 ^ (magnitude - j) := by
            rw [← zpow_natCast, ← zpow_add₀ (by norm_num), add_sub_cancel]
        _ ≤ n * 10 ^ (magnitude - j) := mul_le_mul_of_nonneg_right hbetween.1 hscale
    · calc (n : ℚ) * 10 ^ (magnitude - j) ≤ 10 ^ (j + 1) * 10 ^ (magnitude - j) :=
            mul_le_mul_of_nonneg_right hbetween.2 hscale
        _ = 10 ^ (magnitude + 1) := by
            rw [← zpow_natCast, ← zpow_add₀ (by norm_num)]
            congr 1
            push_cast
            ring

/-- An integer below `2 ^ 53` is its own shortest decimal. -/
theorem value_shortest_of_integer (h : IsDouble m q) (hm : 0 < m) {i : Nat}
    (hi : (m : ℚ) * 2 ^ q = i) (hlt : i < 2 ^ 53) : (shortest m q).value = i := by
  obtain ⟨j, n, hgrid⟩ := exists_onGrid h hm
  obtain ⟨hlow, hhigh⟩ := decimalMagnitude_spec h hm
  rw [hgrid.strip_spec.1]
  have hinside := hgrid.inside
  have hspans := Rounding.spans_ofParts hm q
  generalize decimalMagnitude (Rounding.ofParts m q) = magnitude at *
  have htwo : (0 : ℚ) < 2 ^ q := zpow_pos (by norm_num) q
  have hquarters : (0 : ℚ) < Rounding.quarters m q ∧ (Rounding.quarters m q : ℚ) ≤ 2 := by
    unfold Rounding.quarters
    split <;> norm_num
  -- The unit in the last place is at most one.
  have hq : q ≤ 0 := by
    by_contra hpos
    have hm' : 2 ^ 52 ≤ m := h.normal.resolve_right (by omega)
    have htwo' : (2 : ℚ) ^ (1 : Int) ≤ 2 ^ q := zpow_le_zpow_right₀ (by norm_num) (by omega)
    have hm'' : (2 : ℚ) ^ 52 ≤ m := by exact_mod_cast hm'
    have hlt' : (i : ℚ) < 2 ^ 53 := by exact_mod_cast hlt
    nlinarith
  have hunit : (2 : ℚ) ^ q ≤ 1 := zpow_le_one_of_nonpos₀ (by norm_num) hq
  have hipos : (0 : ℚ) < i := hi ▸ mul_pos (by exact_mod_cast hm) htwo
  have hmagnitude : 0 ≤ magnitude := by
    have hone : (10 : ℚ) ^ (0 : Int) < 10 ^ (magnitude + 1) := by
      rw [zpow_zero]
      refine lt_of_le_of_lt ?_ (hi ▸ hhigh)
      exact_mod_cast hipos
    have := (zpow_lt_zpow_iff_right₀ (by norm_num)).mp hone
    omega
  obtain ⟨k, rfl⟩ := Int.eq_ofNat_of_zero_le hmagnitude
  -- The integer itself is found on the grid of the integers, if not before.
  have hjk : j ≤ k := by
    by_contra hlt
    have hnone := hgrid.first k (by omega)
    have hzero := hspans.scale ((k : Int) - k)
    rw [sub_self, zpow_zero, mul_one, mul_one, mul_one, hi] at hzero
    rw [sub_self] at hnone
    have hcontains := hzero.contains_of_lt (n := i) (by rw [← hi]; nlinarith)
        (by rw [← hi]; nlinarith)
    obtain ⟨hfloor, hnext⟩ := hzero.floor
    norm_cast at hfloor hnext
    have hfloor : _ = i := le_antisymm hfloor (Nat.lt_add_one_iff.mp hnext)
    rw [← hfloor, Rounding.of_nearest?_eq_none hnone] at hcontains
    cases hcontains
  obtain ⟨l, rfl⟩ := Nat.exists_eq_add_of_le hjk
  have hvalue : (Decimal.mk n (((j + l : Nat) : Int) - j)).value = (n * 10 ^ l : Nat) := by
    rw [Decimal.value, show ((j + l : Nat) : Int) - j = (l : Int) by push_cast; ring, zpow_natCast]
    push_cast
    rfl
  rw [hvalue] at hinside ⊢
  have hbelow : ((n * 10 ^ l : Nat) : ℚ) < i + 1 := by rw [← hi]; nlinarith
  have habove : (i : ℚ) < (n * 10 ^ l : Nat) + 1 := by rw [← hi]; nlinarith
  norm_cast at hbelow habove ⊢
  omega

end

end ScriptEngine
