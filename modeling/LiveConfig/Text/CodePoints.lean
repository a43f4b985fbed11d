/-!
# Sets of code points

A set of characters is given as its maximal ranges of code points, first and last included, in
ascending order.
-/

namespace LiveConfig.Text

/-- A set of code points, as ascending ranges with both ends included. -/
abbrev CodePoints := Array (Nat × Nat)

/-- Whether a character belongs to a set of code points. -/
def CodePoints.has (s : CodePoints) (c : Char) : Bool :=
  s.any (fun r => decide (r.1 ≤ c.toNat) && decide (c.toNat ≤ r.2))

end LiveConfig.Text
