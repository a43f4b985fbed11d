/-!
# Natural numbers in decimal digits

Reading a natural number from its decimal digits, of which there is at least one. A plus sign may
stand before them; nothing else may.
-/

namespace LiveConfig.Decimal

/-- The number that decimal digits form behind a number read so far. -/
def naturalFrom (acc : Nat) : List Char → Option Nat
  | [] => some acc
  | c :: r => if c.isDigit then naturalFrom (acc * 10 + (c.toNat - '0'.toNat)) r else none

/-- The number of a decimal text. -/
def natural? : List Char → Option Nat
  | [] => none
  | ['+'] => none
  | '+' :: r => naturalFrom 0 r
  | cs => naturalFrom 0 cs

end LiveConfig.Decimal
