/-!
# UTF-16 code units

Strings hold Unicode scalar values, while lengths, indices and the order of strings are counted in
UTF-16 code units.  A scalar value below `0x10000` is one unit; any other one is a surrogate pair.

## Main definitions

* `charUnits`, `units16` : the code units of a character and of a string.
* `length16` : the number of code units of a string.
* `unitAt?` : the string made of one code unit, a lone surrogate reading as U+FFFD.
* `compare16` : the lexicographic order of code units.
-/

namespace ScriptEngine.Text

/-- The UTF-16 code units of one character. -/
def charUnits (c : Char) : List Nat :=
  let n := c.toNat
  if n < 0x10000 then [n]
  else [0xD800 + (n - 0x10000) / 0x400, 0xDC00 + (n - 0x10000) % 0x400]

/-- The UTF-16 code units of a string. -/
def units16 (s : String) : List Nat :=
  s.toList.flatMap charUnits

/-- The number of UTF-16 code units of a string. -/
def length16 (s : String) : Nat :=
  s.toList.foldl (fun n c => n + (charUnits c).length) 0

/-- The replacement character, which stands for a code unit that is no scalar value. -/
def replacement : Char := '\uFFFD'

/-- The character with the given code, or the replacement character for a surrogate. -/
def charOfUnit (n : Nat) : Char :=
  if n.isValidChar then Char.ofNat n else replacement

/-- The code unit at position `i` as a string of its own. -/
def unitAt? (s : String) (i : Nat) : Option String :=
  (units16 s)[i]?.map fun n => String.singleton (charOfUnit n)

/-- The lexicographic order of two lists of code units. -/
def compareUnits : List Nat → List Nat → Ordering
  | [], [] => .eq
  | [], _ :: _ => .lt
  | _ :: _, [] => .gt
  | a :: as, b :: bs => if a < b then .lt else if b < a then .gt else compareUnits as bs

/-- The order of two strings by UTF-16 code units. -/
def compare16 (s t : String) : Ordering :=
  compareUnits (units16 s) (units16 t)

end ScriptEngine.Text
