import Mathlib.Data.List.Basic
import Mathlib.Data.List.Induction
import Mathlib.Tactic.Ring
import ScriptEngine.Number.Numeral
import ScriptEngine.Number.Style

/-!
# Decimal digits

The value of a run of decimal digits, and the digits of a natural number.  Every natural number has
one text without leading zeros.

## Main definitions

* `Numeral.Digits` : runs of decimal digits.

## Main statements

* `Numeral.digitsValue_append` : the value of two runs of digits after each other.
* `digitsValue_toDigits` : the value of the digits of a number.
* `toDigits_digitsValue` : digits without a leading zero are those of their value.
-/

namespace ScriptEngine

@[simp] theorem NumberStyle.length_zeros (n : Nat) : (zeros n).length = n :=
  List.length_replicate

namespace Numeral

/-- A run of decimal digits. -/
def Digits (ds : List Char) : Prop :=
  ∀ c ∈ ds, c.isDigit = true

theorem digits_singleton {c : Char} (h : c.isDigit = true) : Digits [c] :=
  List.forall_mem_singleton.mpr h

theorem Digits.append {ds es : List Char} (hd : Digits ds) (he : Digits es) : Digits (ds ++ es) :=
  fun c hc => (List.mem_append.mp hc).elim (hd c) (he c)

theorem Digits.of_append {ds es : List Char} (h : Digits (ds ++ es)) : Digits ds ∧ Digits es :=
  ⟨fun c hc => h c (List.mem_append_left _ hc), fun c hc => h c (List.mem_append_right _ hc)⟩

theorem digits_zeros (n : Nat) : Digits (NumberStyle.zeros n) := fun c hc => by
  rw [List.eq_of_mem_replicate hc]
  rfl

theorem digits_toDigits (n : Nat) : Digits (Nat.toDigits 10 n) :=
  fun _ hc => Nat.isDigit_of_mem_toDigits (by decide) (by decide) hc

/-- The value of digits after a number. -/
theorem foldl_digits (ds : List Char) (n : Nat) :
    ds.foldl (fun n c => 10 * n + (c.toNat - '0'.toNat)) n = n * 10 ^ ds.length +
      digitsValue ds := by
  induction ds generalizing n with
  | nil => simp [digitsValue]
  | cons c ds ih =>
    rw [digitsValue, List.foldl_cons, List.foldl_cons, ih, ih (10 * 0 + _), List.length_cons]
    ring

theorem digitsValue_append (ds es : List Char) :
    digitsValue (ds ++ es) = digitsValue ds * 10 ^ es.length + digitsValue es := by
  rw [digitsValue, List.foldl_append]
  exact foldl_digits es _

@[simp] theorem digitsValue_nil : digitsValue [] = 0 := rfl

theorem digitsValue_zeros (n : Nat) : digitsValue (NumberStyle.zeros n) = 0 := by
  induction n with
  | zero => rfl
  | succ n ih =>
    rw [NumberStyle.zeros, List.replicate_succ', digitsValue_append,
      show digitsValue ['0'] = 0 from rfl]
    rw [NumberStyle.zeros] at ih
    rw [ih, Nat.zero_mul]

end Numeral

theorem digitChar_value {d : Nat} (h : d < 10) : d.digitChar.toNat - '0'.toNat = d := by
  have hall : ∀ d < 10, d.digitChar.toNat - '0'.toNat = d := by decide
  exact hall d h

/-- The value of the digits of a number. -/
theorem digitsValue_toDigits (n : Nat) : Numeral.digitsValue (Nat.toDigits 10 n) = n := by
  induction n using Nat.strongRecOn with
  | ind n ih =>
    rcases Nat.lt_or_ge n 10 with hn | hn
    · rw [Nat.toDigits_of_lt_base hn]
      simpa [Numeral.digitsValue] using digitChar_value hn
    · rw [Nat.toDigits_of_base_le (by decide) hn, Numeral.digitsValue_append,
        ih (n / 10) (by omega)]
      have hlast : Numeral.digitsValue [(n % 10).digitChar] = n % 10 := by
        simpa [Numeral.digitsValue] using digitChar_value (Nat.mod_lt n (by decide))
      rw [hlast, List.length_singleton]
      omega

theorem repr_inj {i j : Nat} (h : i.repr = j.repr) : i = j := by
  have hdigits := congrArg (Numeral.digitsValue ·.toList) h
  simpa only [Nat.toList_repr, digitsValue_toDigits] using hdigits

/-- Decimal digits have no leading zero. -/
theorem head?_toDigits {n : Nat} (hn : 0 < n) : (Nat.toDigits 10 n).head? ≠ some '0' := by
  induction n using Nat.strongRecOn with
  | ind n ih =>
    rcases Nat.lt_or_ge n 10 with hlt | hge
    · rw [Nat.toDigits_of_lt_base hlt]
      have hall : ∀ n < 10, 0 < n → [n.digitChar].head? ≠ some '0' := by decide
      exact hall n hlt hn
    · rw [Nat.toDigits_of_base_le (by decide) hge,
        List.head?_append_of_ne_nil _ Nat.toDigits_ne_nil]
      exact ih (n / 10) (by omega) (by omega)

/-- A digit is that of its value. -/
theorem digitChar_digit {c : Char} (h : c.isDigit = true) :
    (c.toNat - '0'.toNat).digitChar = c := by
  obtain ⟨hlow, hhigh⟩ : 48 ≤ c.toNat ∧ c.toNat ≤ 57 := by
    simpa [Char.isDigit, UInt32.le_iff_toNat_le] using h
  have hall : ∀ n ≤ 57, 48 ≤ n → (n - '0'.toNat).digitChar = Char.ofNat n := by decide
  rw [hall c.toNat hhigh hlow, Char.ofNat_toNat]

/-- Digits without a leading zero are those of their value. -/
theorem toDigits_digitsValue {ds : List Char} (hds : Numeral.Digits ds) (hne : ds ≠ [])
    (hleading : ds.length > 1 → ds.head? ≠ some '0') :
    Nat.toDigits 10 (Numeral.digitsValue ds) = ds := by
  induction ds using List.reverseRecOn with
  | nil => exact absurd rfl hne
  | append_singleton ds c ih =>
    obtain ⟨hfront, hc⟩ := hds.of_append
    have hc := hc c List.mem_cons_self
    have hvalue : Numeral.digitsValue [c] = c.toNat - '0'.toNat := by simp [Numeral.digitsValue]
    have hlt : c.toNat - '0'.toNat < 10 := by
      have : c.toNat ≤ 57 := by
        have h := hc
        simp [Char.isDigit, UInt32.le_iff_toNat_le] at h
        exact h.2
      rw [show '0'.toNat = 48 from rfl]
      omega
    rw [Numeral.digitsValue_append, hvalue, List.length_singleton]
    rcases eq_or_ne ds [] with rfl | hds
    · rw [Numeral.digitsValue_nil, Nat.zero_mul, Nat.zero_add, Nat.toDigits_of_lt_base hlt,
        digitChar_digit hc, List.nil_append]
    · have hhead : ds.head? ≠ some '0' := by
        have hlong : (ds ++ [c]).length > 1 := by
          have := List.length_pos_iff.mpr hds
          rw [List.length_append, List.length_singleton]
          omega
        rw [← List.head?_append_of_ne_nil ds hds]
        exact hleading hlong
      have hdigits := ih hfront hds fun _ => hhead
      have hpos : 0 < Numeral.digitsValue ds := by
        refine Nat.pos_of_ne_zero fun hzero => hhead ?_
        rw [← hdigits, hzero]
        rfl
      have hquotient : (Numeral.digitsValue ds * 10 ^ 1 + (c.toNat - '0'.toNat)) / 10 =
          Numeral.digitsValue ds := by omega
      have hrest : (Numeral.digitsValue ds * 10 ^ 1 + (c.toNat - '0'.toNat)) % 10 =
          c.toNat - '0'.toNat := by
        omega
      rw [Nat.toDigits_of_base_le (by decide) (by omega), hquotient, hrest, hdigits,
        digitChar_digit hc]

end ScriptEngine
