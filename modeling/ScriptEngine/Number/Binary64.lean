/-!
# The parts of a double

A finite double is `(-1)^s · m · 2^q` with natural `m < 2^53` and `q ≥ -1074`.  Exact arithmetic on
doubles (remainders, integer parts, digits) is done on these parts.

## Main definitions

* `Binary64` : the parts of a double.
* `Binary64.ofFloat`, `Binary64.toFloat` : the passage from and to `Float`.
* `nearestBits` : the bit pattern of the double nearest to a quotient of naturals.
* `Binary64.integerPart?` : the integer value, if there is one.
* `Binary64.truncated` : the integer part toward zero.
* `remainder` : the exact remainder of a division truncated toward zero.
-/

namespace ScriptEngine

/-- The parts of a double: not a number, an infinity, or `(-1)^s · m · 2^q`. -/
inductive Binary64 where
  | nan
  | infinite (negative : Bool)
  | finite (negative : Bool) (significand : Nat) (exponent : Int)
deriving Repr, DecidableEq, Inhabited

namespace Binary64

/-- The parts that a bit pattern stands for. -/
def ofBits (bits : Nat) : Binary64 :=
  let negative := bits / Nat.pow 2 63 % 2 == 1
  let biased : Nat := bits / Nat.pow 2 52 % Nat.pow 2 11
  let fraction : Nat := bits % Nat.pow 2 52
  if biased == 2047 then
    if fraction == 0 then .infinite negative else .nan
  else if biased == 0 then .finite negative fraction (-1074)
  else .finite negative (Nat.pow 2 52 + fraction) ((biased : Int) - 1075)

/-- The parts of a double. -/
def ofFloat (x : Float) : Binary64 :=
  ofBits x.toBits.toNat

end Binary64

/-- The bit pattern of positive infinity. -/
def infinityBits : Nat := 0x7FF0000000000000

/-- The quotient of two naturals, rounded to the nearest natural, a half going to the even one. -/
def roundedQuotient (num den : Nat) : Nat :=
  let q := num / den
  let r := num % den
  if 2 * r > den || (2 * r == den && q % 2 == 1) then q + 1 else q

/-- The quotient `num / den` divided by `2 ^ q`, as a pair of naturals. -/
def scaledBy (num den : Nat) (q : Int) : Nat × Nat :=
  if 0 ≤ q then (num, den * Nat.pow 2 q.toNat) else (num * Nat.pow 2 (-q).toNat, den)

/-- The bit pattern of the double nearest to `num / den`, ties going to the even significand.

The exponent `q` is the least one, from `-1074` on, for which the quotient by `2 ^ q` is below
`2 ^ 53`; adding the rounded significand to `(q + 1074) · 2 ^ 52` gives the pattern, a carry into
the next binade included. -/
def nearestBits (num den : Nat) : Nat :=
  if num == 0 then 0
  else
    let guess : Int := max ((num.log2 : Int) - (den.log2 : Int) - 53) (-1074)
    let low := scaledBy num den guess
    let q := if low.1 / low.2 < Nat.pow 2 53 then guess else guess + 1
    let exact := scaledBy num den q
    min ((q + 1074).toNat * Nat.pow 2 52 + roundedQuotient exact.1 exact.2) infinityBits

/-- The double with the given sign nearest to `num / den`. -/
def nearestFloat (negative : Bool) (num den : Nat) : Float :=
  let magnitude := Float.ofBits (nearestBits num den).toUInt64
  if negative then -magnitude else magnitude

namespace Binary64

/-- The double nearest to the given parts. -/
def toFloat : Binary64 → Float
  | .nan => 0.0 / 0.0
  | .infinite negative => if negative then -1.0 / 0.0 else 1.0 / 0.0
  | .finite negative m q =>
    if 0 ≤ q then nearestFloat negative (m * Nat.pow 2 q.toNat) 1
    else nearestFloat negative m (Nat.pow 2 (-q).toNat)

/-- The magnitude of the integer part toward zero of `m · 2 ^ q`. -/
def truncatedMagnitude (m : Nat) (q : Int) : Nat :=
  if 0 ≤ q then m * Nat.pow 2 q.toNat else m / Nat.pow 2 (-q).toNat

/-- The integer part toward zero; nothing for an infinity or a value that is no number. -/
def truncated : Binary64 → Option Int
  | .finite negative m q =>
    let t := truncatedMagnitude m q
    some (if negative then -(t : Int) else t)
  | _ => none

/-- The value as an integer, if it is one. -/
def integerPart? : Binary64 → Option Int
  | .finite negative m q =>
    if 0 ≤ q || m % Nat.pow 2 (-q).toNat == 0 then
      (Binary64.finite negative m q).truncated else none
  | _ => none

end Binary64

/-- The exact remainder of `x / y` truncated toward zero; it has the sign of `x`. -/
def remainder (x y : Float) : Float :=
  match Binary64.ofFloat x, Binary64.ofFloat y with
  | .finite negative m q, .finite _ n p =>
    if n == 0 then Binary64.nan.toFloat
    else
      let e := min q p
      let r := (m * Nat.pow 2 (q - e).toNat) % (n * Nat.pow 2 (p - e).toNat)
      (Binary64.finite negative r e).toFloat
  | .finite .., .infinite _ => x
  | _, _ => Binary64.nan.toFloat

end ScriptEngine
