/-!
Sets of characters given by the ranges of their code points, as the Unicode
tables list them. A table is in ascending order, so a look-up stops at the
first range that does not lie wholly below the character.
-/

namespace ScriptSyntax.Text

/-- First and last code point of each range, in ascending order. -/
abbrev RangeTable := List (Nat × Nat)

/-- The membership test; for text that is mostly ASCII it ends after a step or two. -/
def RangeTable.contains : RangeTable → Char → Bool
  | [], _ => false
  | (first, last) :: table, c =>
      if c.toNat ≤ last then first ≤ c.toNat else RangeTable.contains table c

end ScriptSyntax.Text
