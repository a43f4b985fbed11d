import LiveConfig.Decimal.Shortest

/-!
# Numbers of a YAML document

The numbers that a plain scalar can stand for, how such a scalar is read, and how a number is
written as the value of a property.

Integers are read in base ten, and after `0x`, `0o` or `0b` in base sixteen, eight or two. They have
64 bits; a longer one that still fits 128 bits is refused, and a decimal one beyond that is read as
a fraction. Digits behind a leading zero make no number at all.
-/

namespace LiveConfig.Yaml

open LiveConfig.Decimal

/-- A number. -/
inductive Number where
  /-- An integer from zero on. -/
  | natural (n : Nat)
  /-- An integer below zero, by its magnitude. -/
  | negative (n : Nat)
  /-- A finite binary fraction. -/
  | fraction (x : Binary64)
  /-- An infinity, with its sign. -/
  | infinite (isNegative : Bool)
  /-- What is not a number. -/
  | nan
  deriving DecidableEq

namespace Number

/-- Whether two numbers are equal as mapping keys. -/
def same : Number → Number → Bool
  | .fraction x, .fraction y => x.same y
  | x, y => x == y

/-! ### Writing -/

/-- A number's decimal digits. -/
def decimal (n : Nat) : List Char := Nat.toDigits 10 n

/-- A decimal as text. Positional notation reaches from `0.00001` to below `10 ^ 16` and always has
a digit after the point; otherwise the exponent is written without a plus sign. -/
def layout (d : Digits) : List Char :=
  let ds := decimal d.digits
  let places : Int := ds.length + d.power
  if 0 ≤ d.power ∧ places ≤ 16 then ds ++ List.replicate d.power.toNat '0' ++ ['.', '0']
  else if 0 < places ∧ places ≤ 16 then
    ds.take places.toNat ++ '.' :: ds.drop places.toNat
  else if -5 < places ∧ places ≤ 0 then
    ['0', '.'] ++ List.replicate (-places).toNat '0' ++ ds
  else
    let exponent := (toString (places - 1)).toList
    match ds with
    | [] => []
    | [c] => c :: 'e' :: exponent
    | c :: r => c :: '.' :: r ++ 'e' :: exponent

/-- A number as the text of a property. -/
def text : Number → String
  | .natural n => String.ofList (decimal n)
  | .negative n => String.ofList ('-' :: decimal n)
  | .fraction x =>
    String.ofList ((if x.negative then ['-'] else []) ++ layout x.shortest)
  | .infinite isNegative => if isNegative then "-.inf" else ".inf"
  | .nan => ".nan"

/-! ### Reading -/

/-- The value of a digit in a base up to sixteen. -/
def digit? (base : Nat) (c : Char) : Option Nat :=
  let n :=
    if '0' ≤ c ∧ c ≤ '9' then c.toNat - '0'.toNat
    else if 'a' ≤ c ∧ c ≤ 'f' then c.toNat - 'a'.toNat + 10
    else if 'A' ≤ c ∧ c ≤ 'F' then c.toNat - 'A'.toNat + 10
    else base
  if n < base then some n else none

/-- Put digits behind a number that has been read so far. -/
def digitsFrom (base acc : Nat) : List Char → Option Nat
  | [] => some acc
  | c :: r =>
    match digit? base c with
    | some d => digitsFrom base (acc * base + d) r
    | none => none

/-- Digits, at least one, as a number. -/
def digits? (base : Nat) : List Char → Option Nat
  | [] => none
  | cs => digitsFrom base 0 cs

/-- Digits as a number that has to be at most `limit`. -/
def bounded? (limit base : Nat) (cs : List Char) : Option Nat :=
  (digits? base cs).filter (· ≤ limit)

/-- Whether a scalar is a sign, if any, and more than one digit, the first of them zero. -/
def isPadded (cs : List Char) : Bool :=
  let body := match cs with
    | '-' :: r => r
    | '+' :: r => r
    | r => r
  match body with
  | '0' :: c :: r => (c :: r).all Char.isDigit
  | _ => false

/-- A scalar as an integer from zero to `limit`. -/
def unsigned? (limit : Nat) (cs : List Char) : Option Nat :=
  let body := match cs with
    | '+' :: r => r
    | r => r
  let based := match body with
    | '0' :: 'x' :: r => bounded? limit 16 r
    | '0' :: 'o' :: r => bounded? limit 8 r
    | '0' :: 'b' :: r => bounded? limit 2 r
    | _ => none
  match based with
  | some n => some n
  | none => if isPadded cs then none else bounded? limit 10 body

/-- The magnitude, at most `limit`, of a scalar that begins with a minus sign. -/
def negated? (limit : Nat) : List Char → Option Nat
  | '-' :: body =>
    let based := match body with
      | '0' :: 'x' :: r => bounded? limit 16 r
      | '0' :: 'o' :: r => bounded? limit 8 r
      | '0' :: 'b' :: r => bounded? limit 2 r
      | _ => none
    match based with
    | some n => some n
    | none => if isPadded body then none else bounded? limit 10 body
  | _ => none

/-- What a scalar is as an integer. -/
inductive Integer where
  /-- It is one. -/
  | fits (n : Number)
  /-- It is one of 65 to 128 bits. -/
  | tooLong
  /-- It is none, or one of more than 128 bits. -/
  | other

/-- A number by sign and magnitude. -/
def ofMagnitude (isNegative : Bool) (n : Nat) : Number :=
  if isNegative && n != 0 then .negative n else .natural n

/-- Read a scalar as an integer. -/
def integer (cs : List Char) : Integer :=
  match unsigned? (Nat.pow 2 64 - 1) cs with
  | some n => .fits (.natural n)
  | none =>
    match negated? (Nat.pow 2 63) cs with
    | some n => .fits (ofMagnitude true n)
    | none =>
      if (unsigned? (Nat.pow 2 128 - 1) cs).isSome || (negated? (Nat.pow 2 127) cs).isSome then .tooLong
      else .other

/-- The exponent of a decimal: a sign, if any, and digits. -/
def exponent? : List Char → Option Int
  | '+' :: r => (digits? 10 r).map Int.ofNat
  | '-' :: r => (digits? 10 r).map (fun n => -Int.ofNat n)
  | r => (digits? 10 r).map Int.ofNat

/-- The digits and the power of ten of an unsigned decimal: digits with at most one point among
them, at least one digit, and perhaps an exponent. -/
def decimal? (cs : List Char) : Option (Nat × Int) :=
  let whole := cs.takeWhile Char.isDigit
  let rest := cs.dropWhile Char.isDigit
  let part := match rest with
    | '.' :: r => r.takeWhile Char.isDigit
    | _ => []
  let tail := match rest with
    | '.' :: r => r.dropWhile Char.isDigit
    | r => r
  match digits? 10 (whole ++ part) with
  | none => none
  | some n =>
    let shift : Int := part.length
    match tail with
    | [] => some (n, -shift)
    | e :: r =>
      if e = 'e' ∨ e = 'E' then (exponent? r).map (fun x => (n, x - shift)) else none

/-- An unsigned or negative decimal that has a finite neighbour. -/
def finite? : List Char → Option Number
  | '-' :: r =>
    match decimal? r with
    | some (n, p) => (Binary64.ofDecimal true n p).map .fraction
    | none => none
  | r =>
    match decimal? r with
    | some (n, p) => (Binary64.ofDecimal false n p).map .fraction
    | none => none

/-- Read a scalar as a fraction, an infinity or what is not a number. -/
def real? (cs : List Char) : Option Number :=
  let s := String.ofList cs
  if s = ".inf" ∨ s = ".Inf" ∨ s = ".INF" ∨ s = "+.inf" ∨ s = "+.Inf" ∨ s = "+.INF" then
    some (.infinite false)
  else if s = "-.inf" ∨ s = "-.Inf" ∨ s = "-.INF" then some (.infinite true)
  else if s = ".nan" ∨ s = ".NaN" ∨ s = ".NAN" then some .nan
  else
    match cs with
    | '+' :: '-' :: _ => none
    | '+' :: '+' :: _ => none
    | '+' :: r => finite? r
    | r => finite? r

end Number

end LiveConfig.Yaml
