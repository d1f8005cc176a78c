import ScriptEngine.Number.Binary64

/-!
# The shortest decimal of a double

The decimals that read back as a given double form an interval around it, whose ends belong to it
when the significand is even.  Of all decimals in that interval the shortest one is taken, and of
several of the same length the nearest.

## Main definitions

* `Decimal` : digits and a decimal exponent.
* `Rounding` : the interval of reals that round to a double, over a common denominator.
* `shortest` : the shortest decimal that reads back as `m · 2 ^ q`.
-/

namespace ScriptEngine

/-- The decimal number `digits · 10 ^ exponent`. -/
structure Decimal where
  digits : Nat
  exponent : Int
deriving Repr, DecidableEq, Inhabited

namespace Decimal

/-- The decimal digits, most significant first. -/
def chars (d : Decimal) : List Char :=
  Nat.toDigits 10 d.digits

/-- The position of the decimal point after the first digit: the value is `0.d₁d₂… · 10 ^ point`. -/
def point (d : Decimal) : Int :=
  (d.chars.length : Int) + d.exponent

/-- Moves trailing zeros of the digits into the exponent; `fuel` bounds their number. -/
def strip : Nat → Decimal → Decimal
  | 0, d => d
  | fuel + 1, d =>
    if d.digits != 0 && d.digits % 10 == 0 then strip fuel ⟨d.digits / 10, d.exponent + 1⟩ else d

end Decimal

/-- The reals that round to one double: `value` lies between `low` and `high`, all three over the
denominator `unit`, and the ends round to it when `closed`. -/
structure Rounding where
  low : Nat
  value : Nat
  high : Nat
  unit : Nat
  closed : Bool
deriving Repr

namespace Rounding

/-- The interval of `m · 2 ^ q`.  Below a power of two the neighbour is only half as far. -/
def ofParts (m : Nat) (q : Int) : Rounding :=
  let below := if m == Nat.pow 2 52 && q > -1074 then 1 else 2
  let up := Nat.pow 2 q.toNat
  { low := (4 * m - below) * up
    value := 4 * m * up
    high := (4 * m + 2) * up
    unit := 4 * Nat.pow 2 (-q).toNat
    closed := m % 2 == 0 }

/-- Multiplies all bounds by `10 ^ e`. -/
def scale (r : Rounding) (e : Int) : Rounding :=
  let up := Nat.pow 10 e.toNat
  { r with low := r.low * up, value := r.value * up, high := r.high * up,
           unit := r.unit * Nat.pow 10 (-e).toNat }

/-- Whether the natural `n` lies in the interval. -/
def contains (r : Rounding) (n : Nat) : Bool :=
  let x := n * r.unit
  if r.closed then r.low ≤ x && x ≤ r.high else r.low < x && x < r.high

/-- The neighbour of the value among the naturals that lies in the interval, the nearer one if both
do and the upper one if they are equally near. -/
def nearest? (r : Rounding) : Option Nat :=
  let n := r.value / r.unit
  let rest := r.value % r.unit
  match r.contains n, r.contains (n + 1) with
  | true, true => some (if 2 * rest < r.unit then n else n + 1)
  | true, false => some n
  | false, true => some (n + 1)
  | false, false => none

end Rounding

/-- The greatest `e` with `10 ^ e ≤ value / unit`, found next to the estimate by binary digits. -/
def decimalMagnitude (r : Rounding) : Int :=
  let bits : Int := (r.value.log2 : Int) - (r.unit.log2 : Int) - 1
  let guess := (bits * 30103).fdiv 100000 - 1
  let fits (e : Int) : Bool :=
    let s := r.scale (-e)
    s.unit ≤ s.value
  if fits (guess + 3) then guess + 3 else if fits (guess + 2) then guess + 2
  else if fits (guess + 1) then guess + 1 else guess

/-- Tries the grids of `17 - fuel`, `18 - fuel`, … digits below the leading digit's place. -/
def shortestFrom (r : Rounding) (magnitude : Int) : Nat → Decimal
  | 0 => ⟨r.value / r.unit, 0⟩
  | fuel + 1 =>
    let place := magnitude - (17 - (fuel + 1 : Int))
    match (r.scale (-place)).nearest? with
    | some n => (Decimal.mk n place).strip 20
    | none => shortestFrom r magnitude fuel

/-- The shortest decimal that reads back as `m · 2 ^ q`, and of these the nearest. -/
def shortest (m : Nat) (q : Int) : Decimal :=
  let r := Rounding.ofParts m q
  shortestFrom r (decimalMagnitude r) 17

end ScriptEngine
