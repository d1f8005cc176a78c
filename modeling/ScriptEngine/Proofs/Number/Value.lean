import Mathlib.Algebra.Order.Field.Rat
import Mathlib.Data.Rat.Cast.Order
import Mathlib.Tactic.FieldSimp
import Mathlib.Tactic.Positivity
import ScriptEngine.Number.Binary64

/-!
# Values of doubles

A finite double stands for a rational number.  What is computed from its parts with natural numbers
is a statement about this number.

## Main definitions

* `Binary64.value?` : the rational number.

## Main statements

* `Binary64.integerPart?_eq_some` : the integers among the doubles.
-/

namespace ScriptEngine.Binary64

/-- The number that the parts of a double stand for; infinities and what is no number have none. -/
def value? : Binary64 → Option ℚ
  | .finite negative m q => some ((if negative then -1 else 1) * m * 2 ^ q)
  | _ => none

/-- Nothing is cut off from an integer. -/
theorem truncatedMagnitude_eq {m : Nat} {q : Int} (h : 0 ≤ q ∨ m % 2 ^ (-q).toNat = 0) :
    (truncatedMagnitude m q : ℚ) = m * 2 ^ q := by
  unfold truncatedMagnitude
  rcases le_or_gt 0 q with hq | hq
  · obtain ⟨n, rfl⟩ := Int.eq_ofNat_of_zero_le hq
    simp
  · obtain ⟨n, hn⟩ := Int.eq_ofNat_of_zero_le (Int.neg_nonneg_of_nonpos (Int.le_of_lt hq))
    obtain rfl : q = -(n : Int) := by omega
    obtain ⟨d, rfl⟩ : 2 ^ n ∣ m := by
      refine Nat.dvd_of_mod_eq_zero ?_
      simpa using h.resolve_left (by omega)
    rw [if_neg (by omega)]
    simp [mul_comm]

/-- A double has an integer value just if it stands for this integer. -/
theorem integerPart?_eq_some {b : Binary64} {k : Int} :
    b.integerPart? = some k ↔ b.value? = some (k : ℚ) := by
  cases b with
  | nan | infinite => simp [integerPart?, value?]
  | finite negative m q =>
    have hsigned (t : Nat) : ((if negative then -(t : Int) else t : Int) : ℚ) =
        (if negative then -1 else 1) * (t : ℚ) := by
      cases negative <;> simp
    unfold integerPart? truncated value?
    dsimp only
    change (if (decide (0 ≤ q) || m % 2 ^ (-q).toNat == 0) = true then _ else _) = _ ↔ _
    by_cases h : 0 ≤ q ∨ m % 2 ^ (-q).toNat = 0
    · rw [if_pos (by simpa using h), Option.some_inj, Option.some_inj, mul_assoc,
        ← truncatedMagnitude_eq h, ← hsigned, Int.cast_inj]
    · rw [if_neg (by simpa using h), Option.some_inj]
      refine iff_of_false (Option.some_ne_none k).symm fun heq => h (.inr ?_)
      obtain ⟨n, hn⟩ := Int.eq_ofNat_of_zero_le (show 0 ≤ -q by omega)
      obtain rfl : q = -(n : Int) := by omega
      have hpow : (2 : ℚ) ^ n ≠ 0 := by positivity
      have hm : (m : ℚ) = ((if negative then -k else k : Int) : ℚ) * 2 ^ n := by
        cases negative <;>
        · simp at heq ⊢
          rw [← heq]
          field_simp
      have hdvd : (2 : Int) ^ n ∣ (m : Int) :=
        ⟨if negative then -k else k, by rw [mul_comm]; exact_mod_cast hm⟩
      have hdvd : 2 ^ n ∣ m := by exact_mod_cast hdvd
      simpa using Nat.mod_eq_zero_of_dvd hdvd

end ScriptEngine.Binary64
