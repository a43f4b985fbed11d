import LiveConfig.Decimal.Binary64

/-!
# The shortest decimal of a number

The decimal with the fewest digits among those that round to a given binary number; of several, the
one nearest to it, and of two equally near the one with an even last digit.

The decimals with `n` digits that begin at the place of the number's first digit form a grid. If any
point of the grid rounds to the number, one of the number's two neighbours on the grid does, so only
those two are tried, for one digit, two digits and so on. Seventeen digits always suffice.
-/

namespace LiveConfig.Decimal

/-- A decimal: `digits * 10 ^ power`. -/
structure Digits where
  digits : Nat
  power : Int
  deriving DecidableEq

namespace Digits

/-- The same decimal without zeros at its end. At most `fuel` of them are dropped. -/
def trimZeros : Nat → Nat → Int → Digits
  | 0, d, p => ⟨d, p⟩
  | fuel + 1, d, p => if d ≠ 0 ∧ d % 10 = 0 then trimZeros fuel (d / 10) (p + 1) else ⟨d, p⟩

end Digits

namespace Binary64

/-- Whether `10 ^ k` is at most `m * 2 ^ q`. -/
def reaches (m : Nat) (q k : Int) : Bool :=
  Nat.pow 2 (-q).toNat * Nat.pow 10 k.toNat ≤ m * Nat.pow 2 q.toNat * Nat.pow 10 (-k).toNat

/-- The place of the first digit: the greatest `k` with `10 ^ k ≤ m * 2 ^ q`, for positive `m`. -/
def firstPlace (m : Nat) (q : Int) : Int :=
  let guess := ((Nat.log2 m : Int) + q) * 1233 / 4096
  if reaches m q (guess + 1) then guess + 1
  else if reaches m q guess then guess
  else guess - 1

/-- The point of the grid `10 ^ u` that is nearest to `m * 2 ^ q` among its two neighbours there, if
one of them rounds to `m * 2 ^ q`. All quantities are counted in quarters of the number's last
binary place, since the interval of what rounds to it ends at a half or, below a power of two, at a
quarter of that place. -/
def onGrid (m : Nat) (q u : Int) : Option Nat :=
  let narrow := m = Nat.pow 2 52 ∧ leastExponent < q
  let factor := Nat.pow 2 (q - 2).toNat * Nat.pow 10 (-u).toNat
  let unit := Nat.pow 2 (2 - q).toNat * Nat.pow 10 u.toNat
  let value := 4 * m * factor
  let low := (if narrow then 4 * m - 1 else 4 * m - 2) * factor
  let high := (4 * m + 2) * factor
  let rounds (x : Nat) : Bool :=
    if m % 2 = 0 then low ≤ x * unit && x * unit ≤ high else low < x * unit && x * unit < high
  let below := value / unit
  let above := below + 1
  let toBelow := value - below * unit
  let toAbove := above * unit - value
  match rounds below, rounds above with
  | false, false => none
  | true, false => some below
  | false, true => some above
  | true, true =>
    if toBelow < toAbove then some below
    else if toAbove < toBelow then some above
    else if below % 2 = 0 then some below
    else some above

/-- Try grids of growing fineness, with `fuel` digits more at most. -/
def shortestFrom (m : Nat) (q : Int) : Nat → Int → Digits
  | 0, u => ⟨(onGrid m q u).getD 0, u⟩
  | fuel + 1, u =>
    match onGrid m q u with
    | some d => ⟨d, u⟩
    | none => shortestFrom m q fuel (u - 1)

/-- The shortest decimal of the magnitude of a number. -/
def shortest (x : Binary64) : Digits :=
  if x.mantissa = 0 then ⟨0, 0⟩
  else
    let d := shortestFrom x.mantissa x.exponent 17 (firstPlace x.mantissa x.exponent)
    Digits.trimZeros 20 d.digits d.power

end Binary64

end LiveConfig.Decimal
