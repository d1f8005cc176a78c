import ScriptEngine.Number.Shortest

/-!
# Number texts

A number is written with its shortest digits.  A style says which magnitudes are written
positionally and how an exponent, an infinity and a missing fraction look.

## Main definitions

* `NumberStyle` : the decisions of one way of writing numbers.
* `NumberStyle.render` : the text of a double.
* `numberText` : the text that a script sees.
* `plainText` : positional digits at every magnitude.
* `inspectText` : the text that shows a number as such, with a fraction or an exponent.
-/

namespace ScriptEngine

/-- One way of writing numbers. -/
structure NumberStyle where
  /-- Positional notation needs a decimal point beyond this position. -/
  lowest : Option Int
  /-- Positional notation needs a decimal point at or before this position. -/
  highest : Option Int
  /-- Whether an integer ends in `.0`. -/
  fraction : Bool
  /-- The sign of a nonnegative exponent. -/
  plus : String
  /-- The text of an infinity without its sign. -/
  infinity : String
  /-- Whether negative zero keeps its sign. -/
  signedZero : Bool

namespace NumberStyle

/-- A run of zeros. -/
def zeros (n : Nat) : List Char :=
  List.replicate n '0'

/-- The digits with the decimal point at `point`. -/
def positional (style : NumberStyle) (digits : List Char) (point : Int) : List Char :=
  let k : Int := digits.length
  if k ≤ point then
    digits ++ zeros (point - k).toNat ++ (if style.fraction then ['.', '0'] else [])
  else if 0 < point then
    digits.take point.toNat ++ '.' :: digits.drop point.toNat
  else '0' :: '.' :: zeros (-point).toNat ++ digits

/-- The digits with the point after the first one, and an exponent. -/
def scientific (style : NumberStyle) (digits : List Char) (exponent : Int) : List Char :=
  let mantissa := match digits with
    | first :: second :: rest => first :: '.' :: second :: rest
    | short => short
  let sign := if exponent < 0 then ['-'] else style.plus.toList
  mantissa ++ 'e' :: sign ++ Nat.toDigits 10 exponent.natAbs

/-- Whether a decimal point at `point` is written positionally. -/
def isPositional (style : NumberStyle) (point : Int) : Bool :=
  (style.lowest.all (· < point)) && (style.highest.all (point ≤ ·))

/-- The text of digits `d₁d₂…` with the value `0.d₁d₂… · 10 ^ point`. -/
def layout (style : NumberStyle) (digits : List Char) (point : Int) : List Char :=
  if style.isPositional point then style.positional digits point
  else style.scientific digits (point - 1)

/-- The text of a double. -/
def render (style : NumberStyle) (x : Float) : String :=
  match Binary64.ofFloat x with
  | .nan => "NaN"
  | .infinite negative => (if negative then "-" else "") ++ style.infinity
  | .finite negative m q =>
    if m == 0 then
      (if negative && style.signedZero then "-" else "") ++ (if style.fraction then "0.0" else "0")
    else
      let d := shortest m q
      (if negative then "-" else "") ++ String.ofList (style.layout d.chars d.point)

end NumberStyle

/-- Positional from `1e-6` up to 21 digits before the point, and a signed exponent elsewhere. -/
def NumberStyle.script : NumberStyle :=
  { lowest := some (-6), highest := some 21, fraction := false, plus := "+",
    infinity := "Infinity", signedZero := false }

/-- Positional at every magnitude. -/
def NumberStyle.plain : NumberStyle :=
  { lowest := none, highest := none, fraction := false, plus := "",
    infinity := "inf", signedZero := true }

/-- Positional from `1e-4` up to 16 digits before the point, always with a fraction. -/
def NumberStyle.inspect : NumberStyle :=
  { lowest := some (-4), highest := some 16, fraction := true, plus := "",
    infinity := "inf", signedZero := true }

/-- The text of a number as scripts see it. -/
def numberText (x : Float) : String :=
  NumberStyle.script.render x

/-- The digits of a number at their places, whatever its magnitude. -/
def plainText (x : Float) : String :=
  NumberStyle.plain.render x

/-- The text that marks a number as one: with a fraction or an exponent. -/
def inspectText (x : Float) : String :=
  NumberStyle.inspect.render x

end ScriptEngine
