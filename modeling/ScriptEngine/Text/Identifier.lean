import ScriptEngine.Text.Range
import ScriptEngine.Text.IdentifierTable

/-!
# Identifier characters

The characters that may begin and continue an identifier.

## Main definitions

* `isIdentifierStart`, `isIdentifierPart` : the two classes of identifier characters.

## Main results

* `isIdentifierPart_of_isIdentifierStart` : what may begin an identifier may continue it.
-/

namespace ScriptEngine.Text

/-- The characters that may begin an identifier. -/
def isIdentifierStart (c : Char) : Bool :=
  c == '$' || c == '_' || c.isAlpha || inRanges c.toNat xidStartRanges

/-- The characters that may continue an identifier: also digits, combining marks and joiners. -/
def isIdentifierPart (c : Char) : Bool :=
  isIdentifierStart c || c.isDigit || inRanges c.toNat xidExtraRanges || c == '\u200C' ||
    c == '\u200D'

/-- What may begin an identifier may also continue it. -/
theorem isIdentifierPart_of_isIdentifierStart {c : Char} (h : isIdentifierStart c) :
    isIdentifierPart c := by
  simp [isIdentifierPart, h]

end ScriptEngine.Text
