/-!
# Sets of characters given by ranges of code points

A property of the Unicode standard is a table of ranges. A table lists its ranges in ascending
order, so a look-up stops at the first range that starts above the character.
-/

namespace Scriptlet.Text

/-- A table of closed ranges of code points, in ascending order. -/
abbrev CodeTable := List (Nat × Nat)

/-- Whether a code point lies in a range of the table. -/
def CodeTable.contains : CodeTable → Nat → Bool
  | [], _ => false
  | (low, high) :: ranges, n => low ≤ n && (n ≤ high || CodeTable.contains ranges n)

end Scriptlet.Text
