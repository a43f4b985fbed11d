/-!
# Binary floating-point numbers

The finite numbers of the 64-bit binary format, as an integer mantissa below `2 ^ 53` times a power
of two, and the number nearest to a decimal. All of it is exact integer arithmetic.

A decimal is rounded once, a half to the even neighbour; what lies above the largest number has no
finite neighbour and gives `none`.
-/

namespace LiveConfig.Decimal

/-- The quotient of two numbers rounded to the nearest integer, a half to the even one. -/
def roundDiv (num den : Nat) : Nat :=
  let q := num / den
  let r := num % den
  if 2 * r < den then q
  else if den < 2 * r then q + 1
  else if q % 2 = 0 then q
  else q + 1

/-- A finite number of the 64-bit binary format: `± mantissa * 2 ^ exponent`. -/
structure Binary64 where
  /-- Whether the sign is minus; zero has a sign too. -/
  negative : Bool
  /-- Below `2 ^ 53`, and at least `2 ^ 52` unless the exponent is the smallest one. -/
  mantissa : Nat
  /-- At least -1074. -/
  exponent : Int
  deriving DecidableEq

namespace Binary64

/-- The smallest exponent, which the numbers next to zero have. -/
def leastExponent : Int := -1074

/-- The largest exponent of a finite number. -/
def greatestExponent : Int := 971

/-- Zero with a sign. -/
def zero (negative : Bool) : Binary64 := ⟨negative, 0, leastExponent⟩

/-- The powers of two and ten that scale a fraction `num / den` by `2 ^ -q`. -/
def scale (num den : Nat) (q : Int) : Nat × Nat :=
  (num * Nat.pow 2 (-q).toNat, den * Nat.pow 2 q.toNat)

/-- The number nearest to the fraction `num / den`, which is not zero. -/
def ofFraction (negative : Bool) (num den : Nat) : Option Binary64 :=
  let top : Int := (Nat.log2 num : Int) - (Nat.log2 den : Int)
  let guess := max (top - 53) leastExponent
  let (n, d) := scale num den guess
  let q := if n / d < Nat.pow 2 53 then guess else guess + 1
  let (n, d) := scale num den q
  let m := roundDiv n d
  let rounded : Binary64 :=
    if m < Nat.pow 2 53 then ⟨negative, m, q⟩ else ⟨negative, m / 2, q + 1⟩
  if greatestExponent < rounded.exponent then none else some rounded

/-- The number nearest to `digits * 10 ^ power`. Decimals far outside the range of the format are
settled by their size alone. -/
def ofDecimal (negative : Bool) (digits : Nat) (power : Int) : Option Binary64 :=
  if digits = 0 then some (zero negative)
  else
    let size : Int := (Nat.toDigits 10 digits).length + power
    if 310 < size then none
    else if size < -330 then some (zero negative)
    else ofFraction negative (digits * Nat.pow 10 power.toNat) (Nat.pow 10 (-power).toNat)

/-- Whether two numbers are equal as numbers: zeros are, whatever their sign. -/
def same (a b : Binary64) : Bool :=
  (a.mantissa == 0 && b.mantissa == 0) || a == b

end Binary64

end LiveConfig.Decimal
