/-!
# Ranges of code points

A character class given by a table is an ascending list of closed ranges of code points.

## Main definitions

* `inRanges` : membership in an ascending table of ranges.
-/

namespace ScriptEngine.Text

/-- Membership in an ascending list of closed ranges.  The search ends at the first range above. -/
def inRanges (n : Nat) : List (Nat × Nat) → Bool
  | [] => false
  | (lo, hi) :: rest => if n < lo then false else n ≤ hi || inRanges n rest

end ScriptEngine.Text
