/-!
# Ranges of code points

A property of characters as a table: ranges of code points in ascending order, ends included.
-/

namespace BicepMigration.Text

/-- A code point lies in one of the ranges, which are in ascending order. -/
def inRanges (n : Nat) : List (Nat × Nat) → Bool
  | [] => false
  | (first, last) :: rest => first ≤ n && (n ≤ last || inRanges n rest)

end BicepMigration.Text
