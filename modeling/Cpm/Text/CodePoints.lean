/-!
# Sets of characters

A property of characters is given as the ranges of code points that have it.
-/

namespace Cpm

/-- Ranges of code points, both ends included. -/
abbrev CodePoints := List (Nat × Nat)

namespace CodePoints

def contains (t : CodePoints) (c : Char) : Bool :=
  t.any fun range => range.1 ≤ c.toNat && c.toNat ≤ range.2

end CodePoints

end Cpm
