import Mathlib
import ScriptEngine.Proofs.Number.Shortest

/-!
# Bit patterns of doubles

A double is told by its parts: every bit pattern but those of values that are no number stands for
parts of its own, and there is one value that is no number.  What an operation on doubles gives is
told by the parts of its operands.

## Main definitions

* `Binary64.pattern` : the bit pattern of the parts of a double.
* `Binary64.opposite` : the parts with the other sign.
* `Binary64.Nonnegative` : no sign, and no value that is no number.

## Main statements

* `Binary64.ofFloat_ofBits` : the parts of the double with a bit pattern.
* `Binary64.ofFloat_neg` : the parts of an opposite.
* `Binary64.ofFloat_injective` : a double is told by its parts.
* `Binary64.isNaN_iff` : the values that are no number.
* `Binary64.Nonnegative.accumulate` : what hexadecimal digits add up to is a number.
-/

namespace ScriptEngine

open Float.Model (Format UnpackedFloat)
open Float.Model.UnpackedFloat (Sign packComponents unpackExponent unpackMantissa unpackSign)

namespace Binary64

/-! ### Patterns -/

/-- The weight of the sign in a bit pattern. -/
def signWeight (negative : Bool) : Nat :=
  if negative then 2 ^ 63 else 0

/-- The bit pattern of the parts of a double. -/
def pattern : Binary64 → Nat
  | .nan => 0x7FF8000000000000
  | .infinite negative => signWeight negative + infinityBits
  | .finite negative m q => signWeight negative + ((q + 1074).toNat * 2 ^ 52 + m)

/-- The parts with the other sign. -/
def opposite : Binary64 → Binary64
  | .nan => .nan
  | .infinite negative => .infinite !negative
  | .finite negative m q => .finite (!negative) m q

/-- Parts that a double has. -/
def IsParts : Binary64 → Prop
  | .finite _ m q => IsDouble m q
  | _ => True

theorem isParts_ofBits (bits : Nat) : (ofBits bits).IsParts := by
  cases h : ofBits bits with
  | finite => exact isDouble_of_ofBits h
  | _ => trivial

theorem IsParts.opposite {b : Binary64} (h : b.IsParts) : b.opposite.IsParts := by
  cases b <;> exact h

theorem isParts_ofFloat (x : Float) : (ofFloat x).IsParts :=
  isParts_ofBits _

/-- The parts of a pattern by its fields. -/
theorem ofBits_fields {biased fraction : Nat} (negative : Bool) (hb : biased < 2 ^ 11)
    (hf : fraction < 2 ^ 52) :
    ofBits (signWeight negative + (biased * 2 ^ 52 + fraction)) =
      if biased = 2047 then (if fraction = 0 then .infinite negative else .nan)
      else if biased = 0 then .finite negative fraction (-1074)
      else .finite negative (2 ^ 52 + fraction) (biased - 1075) := by
  have hsign : (signWeight negative + (biased * 2 ^ 52 + fraction)) / 2 ^ 63 % 2 =
      negative.toNat := by
    cases negative <;> simp only [signWeight, Bool.toNat] <;> norm_num <;> omega
  have hbiased : (signWeight negative + (biased * 2 ^ 52 + fraction)) / 2 ^ 52 % 2 ^ 11 =
      biased := by
    cases negative <;> simp only [signWeight] <;> norm_num <;> omega
  have hfraction : (signWeight negative + (biased * 2 ^ 52 + fraction)) % 2 ^ 52 = fraction := by
    cases negative <;> simp only [signWeight] <;> norm_num <;> omega
  unfold ofBits
  simp only [Nat.pow_eq, hsign, hbiased, hfraction, beq_iff_eq]
  cases negative <;> rfl

/-- The parts of the pattern of parts. -/
theorem ofBits_pattern {b : Binary64} (h : b.IsParts) : ofBits b.pattern = b := by
  cases b with
  | nan => rfl
  | infinite negative => cases negative <;> rfl
  | finite negative m q =>
    obtain ⟨hm, hleast, hmost, hnormal⟩ : IsDouble m q := h
    rcases Nat.lt_or_ge m (2 ^ 52) with hlt | hge
    · obtain rfl : q = -1074 := hnormal.resolve_left (by omega)
      have hfields := ofBits_fields negative (show 0 < 2 ^ 11 by decide) hlt
      simpa [pattern] using hfields
    · obtain ⟨e, rfl⟩ : ∃ e : Nat, q = e - 1074 := ⟨(q + 1074).toNat, by omega⟩
      have hfields :=
        ofBits_fields negative (show e + 1 < 2 ^ 11 by omega) (show m - 2 ^ 52 < 2 ^ 52 by omega)
      have hsum : (e + 1) * 2 ^ 52 + (m - 2 ^ 52) = e * 2 ^ 52 + m := by omega
      have hexponent : ((e + 1 : Nat) : Int) - 1075 = e - 1074 := by omega
      rw [hsum, if_neg (by omega), if_neg (by omega), Nat.add_sub_cancel' hge, hexponent] at hfields
      rw [pattern, show ((e : Int) - 1074 + 1074).toNat = e by omega, hfields]

/-- The pattern of the parts of a pattern, unless it is none of a number. -/
theorem pattern_ofBits {bits : Nat} (hbits : bits < 2 ^ 64) (h : ofBits bits ≠ .nan) :
    (ofBits bits).pattern = bits := by
  obtain ⟨negative, biased, fraction, hb, hf, rfl⟩ : ∃ negative biased fraction, biased < 2 ^ 11 ∧
      fraction < 2 ^ 52 ∧ bits = signWeight negative + (biased * 2 ^ 52 + fraction) := by
    refine ⟨decide (bits / 2 ^ 63 = 1), bits / 2 ^ 52 % 2 ^ 11, bits % 2 ^ 52,
      Nat.mod_lt _ (by decide), Nat.mod_lt _ (by decide), ?_⟩
    by_cases hs : bits / 2 ^ 63 =
      1 <;> simp only [signWeight, hs, decide_true, decide_false, if_true] <;>
      norm_num <;> omega
  rw [ofBits_fields negative hb hf] at h ⊢
  split at h
  · next hmax =>
    split at h
    · next hzero =>
      rw [if_pos hmax, if_pos hzero, pattern, hmax, hzero]
      rfl
    · exact absurd rfl h
  · next hmax =>
    rw [if_neg hmax]
    split
    · next hzero => simp [pattern, hzero]
    · next hzero =>
      rw [pattern, show ((biased : Int) - 1075 + 1074).toNat = biased - 1 by omega]
      omega

/-- The patterns of values that are no number. -/
theorem of_ofBits_eq_nan {bits : Nat} (h : ofBits bits = .nan) :
    bits / 2 ^ 52 % 2 ^ 11 = 2047 ∧ bits % 2 ^ 52 ≠ 0 := by
  unfold ofBits at h
  simp only [Nat.pow_eq, beq_iff_eq] at h
  split at h
  · next hmax =>
    split at h
    · cases h
    · next hne => exact ⟨hmax, hne⟩
  · split at h <;> cases h

/-! ### The fields of a packed double -/

theorem toNat_packComponents (s : Sign) (e : BitVec 11) (m : BitVec 52) :
    (packComponents Format.binary64 s e m).toNat =
      s.toBitVec.toNat * 2 ^ 63 + (e.toNat * 2 ^ 52 + m.toNat) := by
  unfold packComponents
  rw [BitVec.toNat_append, BitVec.toNat_append, ← Nat.shiftLeft_add_eq_or_of_lt m.isLt,
    ← Nat.shiftLeft_add_eq_or_of_lt e.isLt, Nat.shiftLeft_eq, Nat.shiftLeft_eq]
  ring

theorem toNat_unpackExponent (b : BitVec 64) :
    (@unpackExponent Format.binary64 b).toNat = b.toNat / 2 ^ 52 % 2 ^ 11 := by
  unfold unpackExponent
  rw [BitVec.toNat_cast, BitVec.extractLsb_toNat, Nat.shiftRight_eq_div_pow]
  rfl

theorem toNat_unpackMantissa (b : BitVec 64) :
    (@unpackMantissa Format.binary64 b).toNat = b.toNat % 2 ^ 52 := by
  unfold unpackMantissa
  rw [BitVec.toNat_cast, BitVec.extractLsb_toNat, Nat.shiftRight_eq_div_pow]
  simp

theorem toNat_unpackSign (b : BitVec 64) :
    (@unpackSign Format.binary64 b).toNat = b.toNat / 2 ^ 63 % 2 := by
  unfold unpackSign
  rw [BitVec.toNat_cast, BitVec.extractLsb_toNat, Nat.shiftRight_eq_div_pow]
  simp

/-! ### Packing -/

/-- The sign of a double in the arithmetic of doubles. -/
def sign (negative : Bool) : Sign :=
  if negative then .negative else .positive

theorem toNat_sign (negative : Bool) :
    (sign negative).toBitVec.toNat * 2 ^ 63 = signWeight negative := by
  cases negative <;> rfl

/-- The parts of a double as the arithmetic of doubles has them. -/
def unpacked : Binary64 → UnpackedFloat
  | .nan => .notANumber
  | .infinite negative => .infinity (sign negative)
  | .finite negative m q =>
    if h : 0 < m then .finite (sign negative) m q h else .zero (sign negative)

theorem ofBitVec_unpackSign (b : BitVec 64) :
    Sign.ofBitVec (@unpackSign Format.binary64 b) = sign (b.toNat / 2 ^ 63 % 2 == 1) := by
  rw [← toNat_unpackSign]
  obtain h | h := BitVec.eq_zero_or_eq_one (@unpackSign Format.binary64 b) <;> rw [h] <;> rfl

/-- What is unpacked are the parts of the pattern. -/
theorem unpack_eq (b : BitVec 64) :
    UnpackedFloat.unpack Format.binary64 b = (ofBits b.toNat).unpacked := by
  have hmax : @unpackExponent Format.binary64 b = -1#11 ↔ b.toNat / 2 ^ 52 % 2 ^ 11 = 2047 := by
    rw [← toNat_unpackExponent, ← BitVec.toNat_inj]
    rfl
  have hmin : @unpackExponent Format.binary64 b = 0#11 ↔ b.toNat / 2 ^ 52 % 2 ^ 11 = 0 := by
    rw [← toNat_unpackExponent, ← BitVec.toNat_inj]
    rfl
  have hzero : @unpackMantissa Format.binary64 b = 0#52 ↔ b.toNat % 2 ^ 52 = 0 := by
    rw [← toNat_unpackMantissa, ← BitVec.toNat_inj]
    rfl
  have hone : (1#1 ++ @unpackMantissa Format.binary64 b).toNat = 2 ^ 52 + b.toNat % 2 ^ 52 := by
    rw [BitVec.toNat_append, ← Nat.shiftLeft_add_eq_or_of_lt (BitVec.isLt _), toNat_unpackMantissa]
    rfl
  unfold UnpackedFloat.unpack ofBits
  simp only [hmax, hmin, hzero, hone, ofBitVec_unpackSign, toNat_unpackExponent,
    toNat_unpackMantissa, Nat.pow_eq, beq_iff_eq]
  split
  · split <;> rfl
  · split
    · split
      · next h => rw [unpacked, dif_neg (by omega)]
      · next hbiased h =>
        rw [unpacked, dif_pos (Nat.pos_of_ne_zero h), hbiased]
        congr 1
    · rw [unpacked, dif_pos (by omega)]
      congr 1

/-- Packed parts are their pattern. -/
theorem toNat_pack_unpacked {b : Binary64} (h : b.IsParts) :
    (UnpackedFloat.pack Format.binary64 b.unpacked).toNat = b.pattern := by
  cases b with
  | nan => rfl
  | infinite negative => cases negative <;> rfl
  | finite negative m q =>
    obtain ⟨hm, hleast, hmost, hnormal⟩ : IsDouble m q := h
    rcases Nat.eq_zero_or_pos m with rfl | hpos
    · obtain rfl : q = -1074 := hnormal.resolve_left (by decide)
      cases negative <;> rfl
    · have hbiased :
          (q + Format.binary64.exponentBias + Format.binary64.mantissaBitsWithoutImplicit).toNat =
          (q + 1075).toNat := by
        rw [add_assoc]
        rfl
      rw [unpacked, dif_pos hpos, UnpackedFloat.pack]
      simp only [hbiased]
      rw [if_neg (show ¬ 2 ^ 11 ≤ (q + 1075).toNat + 1 by omega)]
      have hlog : m.log2 + 1 = Format.binary64.mantissaBits ↔ 2 ^ 52 ≤ m := by
        rw [← Nat.le_log2 hpos.ne']
        have := (Nat.log2_lt hpos.ne').mpr hm
        change m.log2 + 1 = 53 ↔ _
        omega
      simp only [hlog]
      split
      · next hge =>
        rw [toNat_packComponents, toNat_sign, pattern, BitVec.toNat_ofNat, BitVec.toNat_ofNat]
        omega
      · next hlt =>
        obtain rfl : q = -1074 := hnormal.resolve_left hlt
        rw [toNat_packComponents, toNat_sign, pattern, BitVec.toNat_ofNat, BitVec.toNat_ofNat]
        omega

/-! ### Doubles -/

theorem unpack_toModel (x : Float) : x.toModel.unpack = (ofFloat x).unpacked :=
  unpack_eq _

/-- The parts of packed parts. -/
theorem ofFloat_pack {b : Binary64} (h : b.IsParts) :
    ofFloat ⟨Float.Model.pack b.unpacked⟩ = b := by
  have hbits := ofBits_pattern h
  rw [← toNat_pack_unpacked h] at hbits
  exact hbits

/-- The parts of the double with a bit pattern. -/
theorem ofFloat_ofBits (w : UInt64) : ofFloat (Float.ofBits w) = ofBits w.toNat := by
  have hpack := ofFloat_pack (isParts_ofBits w.toNat)
  rw [show (ofBits w.toNat).unpacked = _ from (unpack_eq w.toBitVec).symm] at hpack
  exact hpack

/-- The parts of an opposite. -/
theorem ofFloat_neg (x : Float) : ofFloat (-x) = (ofFloat x).opposite := by
  have hneg : (ofFloat x).unpacked.neg = (ofFloat x).opposite.unpacked := by
    have hsign (negative : Bool) : -sign negative = sign !negative := by cases negative <;> rfl
    cases ofFloat x with
    | nan => rfl
    | infinite negative => rw [opposite, unpacked, unpacked, UnpackedFloat.neg, hsign]
    | finite negative m q =>
      rw [opposite, unpacked, unpacked]
      split <;> rw [UnpackedFloat.neg, hsign]
  have hpack := ofFloat_pack (isParts_ofFloat x).opposite
  rw [← hneg, ← unpack_toModel] at hpack
  exact hpack

/-- The pattern of a double is that of its parts: values that are no number have one pattern. -/
theorem toNat_toBits (x : Float) : x.toBits.toNat = (ofFloat x).pattern := by
  by_cases h : ofFloat x = .nan
  · have hvalid := x.toModel.valid.eq_packedNaN
    obtain ⟨hmax, hne⟩ := of_ofBits_eq_nan h
    rw [← show _ = x.toBits.toNat / 2 ^ 52 % 2 ^ 11 from toNat_unpackExponent _] at hmax
    rw [← show _ = x.toBits.toNat % 2 ^ 52 from toNat_unpackMantissa _] at hne
    have hpacked := hvalid (BitVec.eq_of_toNat_eq hmax) fun hzero =>
        hne (congrArg BitVec.toNat hzero)
    rw [h]
    exact congrArg BitVec.toNat hpacked
  · exact (pattern_ofBits x.toBits.toNat_lt h).symm

/-- A value that is no number has no parts of one. -/
theorem isNaN_iff (x : Float) : x.isNaN = true ↔ ofFloat x = .nan := by
  change x.toModel.unpack.isNaN = true ↔ _
  rw [unpack_toModel]
  cases ofFloat x with
  | nan => exact iff_of_true rfl rfl
  | infinite => exact iff_of_false nofun nofun
  | finite negative m q =>
    refine iff_of_false ?_ nofun
    rw [unpacked]
    split <;> exact nofun

/-- A double is told by its parts. -/
theorem ofFloat_injective : Function.Injective ofFloat := by
  intro x y h
  have hbits : x.toBits = y.toBits := by
    rw [← UInt64.toNat_inj, toNat_toBits, toNat_toBits, h]
  cases x with | ofModel x =>
  cases y with | ofModel y =>
  cases x
  cases y
  cases hbits
  rfl

/-! ### Sums of digits -/

/-- The parts of a number without a sign. -/
def Nonnegative : Binary64 → Prop
  | .nan => False
  | .infinite negative => negative = false
  | .finite negative _ _ => negative = false

instance : DecidablePred Nonnegative
  | .nan => inferInstanceAs (Decidable False)
  | .infinite negative => inferInstanceAs (Decidable (negative = false))
  | .finite negative _ _ => inferInstanceAs (Decidable (negative = false))

theorem Nonnegative.ne_nan {b : Binary64} (h : b.Nonnegative) : b ≠ .nan := by
  rintro rfl
  exact h

/-- The patterns up to that of infinity are those of the numbers without a sign. -/
theorem nonnegative_ofBits {bits : Nat} (h : bits ≤ infinityBits) : (ofBits bits).Nonnegative := by
  have hsign : (bits / 2 ^ 63 % 2 == 1) = false := by
    unfold infinityBits at h
    simp only [beq_eq_false_iff_ne]
    omega
  unfold ofBits
  simp only [Nat.pow_eq, hsign, beq_iff_eq]
  split
  · rw [if_pos (by unfold infinityBits at h; omega)]
    rfl
  · split <;> rfl

/-- A number without a sign as the arithmetic of doubles has it. -/
def IsPositive : UnpackedFloat → Prop
  | .notANumber => False
  | .infinity s | .zero s | .finite s .. => s = .positive

theorem isPositive_unpacked {b : Binary64} (h : b.Nonnegative) : IsPositive b.unpacked := by
  cases b with
  | nan => exact h
  | infinite => cases h; rfl
  | finite _ m =>
    cases h
    rw [unpacked]
    split <;> rfl

theorem isPositive_roundWithAccuracy (m : Nat) (e : Int) (a : UnpackedFloat.Accuracy) :
    IsPositive (UnpackedFloat.roundWithAccuracy Format.binary64 .positive m e a) := by
  unfold UnpackedFloat.roundWithAccuracy
  dsimp only
  split <;> rfl

theorem nonnegative_components {e : BitVec 11} {m : BitVec 52} (h : e.toNat = 2047 → m.toNat = 0) :
    (ofBits (packComponents Format.binary64 .positive e m).toNat).Nonnegative := by
  have hsign : UnpackedFloat.Sign.positive = sign false := rfl
  rw [toNat_packComponents, hsign, toNat_sign, ofBits_fields false e.isLt m.isLt]
  split
  · next hmax =>
    rw [if_pos (h hmax)]
    rfl
  · split <;> rfl

/-- What is packed without a sign has none. -/
theorem nonnegative_pack {u : UnpackedFloat} (h : IsPositive u) :
    (ofFloat ⟨Float.Model.pack u⟩).Nonnegative := by
  change (ofBits (UnpackedFloat.pack Format.binary64 u).toNat).Nonnegative
  cases u with
  | notANumber => exact h.elim
  | infinity => cases h; rfl
  | zero => cases h; rfl
  | finite s m e =>
    cases h
    rw [UnpackedFloat.pack]
    dsimp only
    split
    · rfl
    · next hlt =>
      split
      · refine nonnegative_components fun hmax => ?_
        rw [BitVec.toNat_ofNat, Nat.mod_eq_of_lt] at hmax
        all_goals
          change ¬ 2 ^ 11 ≤ _ at hlt
          omega
      · exact nonnegative_components nofun

theorem isPositive_mul {a b : UnpackedFloat} (ha : IsPositive a) {m : Nat} {e : Int} {hm : 0 < m}
    (hb : b = .finite .positive m e hm) : IsPositive (UnpackedFloat.mul Format.binary64 a b) := by
  subst hb
  cases a with
  | notANumber => exact ha.elim
  | infinity | zero =>
    cases ha
    rfl
  | finite =>
    cases ha
    exact isPositive_roundWithAccuracy ..

theorem isPositive_normalize {n : Int} (hn : 0 ≤ n) (e : Int) :
    IsPositive (UnpackedFloat.normalize Format.binary64 n e .positive) := by
  unfold UnpackedFloat.normalize
  split
  · next h =>
    rw [compare_lt_iff_lt] at h
    omega
  · rfl
  · exact isPositive_roundWithAccuracy ..

theorem isPositive_add {a b : UnpackedFloat} (ha : IsPositive a) (hb : IsPositive b) :
    IsPositive (UnpackedFloat.add Format.binary64 a b) := by
  cases a with
  | notANumber => exact ha.elim
  | infinity => cases ha; cases b <;> cases hb <;> rfl
  | zero => cases ha; cases b <;> cases hb <;> rfl
  | finite s m e hm =>
    cases ha
    cases b with
    | notANumber => exact hb.elim
    | infinity => cases hb; rfl
    | zero => cases hb; rfl
    | finite s' m' e' hm' =>
      cases hb
      refine isPositive_normalize (Int.add_nonneg ?_ ?_) _ <;> exact Int.natCast_nonneg _

/-- A step of the accumulation of hexadecimal digits stays a number without a sign. -/
theorem Nonnegative.accumulate {x : Float} (h : (ofFloat x).Nonnegative) {d : Nat} (hd : d < 16) :
    (ofFloat (x * 16.0 + Float.ofNat d)).Nonnegative := by
  have hsixteen : ofFloat 16.0 = .finite false (2 ^ 52) (-48) := by decide +kernel
  have hunpacked : (16.0 : Float).toModel.unpack = .finite .positive (2 ^ 52) (-48)
      (by decide) := by
    rw [unpack_toModel, hsixteen]
    rfl
  have hproduct : (ofFloat (x * 16.0)).Nonnegative := by
    refine nonnegative_pack (isPositive_mul ?_ hunpacked)
    exact unpack_toModel x ▸ isPositive_unpacked h
  have hdigit : (ofFloat (Float.ofNat d)).Nonnegative := by
    have hall : ∀ d < 16, (ofFloat (Float.ofNat d)).Nonnegative := by decide +kernel
    exact hall d hd
  refine nonnegative_pack (isPositive_add ?_ ?_)
  · exact unpack_toModel (x * 16.0) ▸ isPositive_unpacked hproduct
  · exact unpack_toModel (Float.ofNat d) ▸ isPositive_unpacked hdigit

end Binary64

end ScriptEngine
