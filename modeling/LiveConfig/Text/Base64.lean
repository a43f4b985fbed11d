import LiveConfig.Text.Utf8

/-!
# Base64

Bytes written with the standard alphabet, always padded, and the strict reader: it accepts exactly
the written forms. Three bytes are one quad of symbols; a last quad stands for one or two bytes when
it ends in padding, and then the bits of its last symbol that no byte uses have to be zero.

The reader blames the first symbol that cannot stand where it stands, with one exception: if one
symbol is left over after the whole quads and it is no symbol at all, that last one is blamed
first, since a stray line break at the end is the usual reason.
-/

namespace LiveConfig.Text.Base64

/-- The symbol of a number below 64. -/
def symbol (n : Nat) : Char :=
  if n < 26 then Char.ofNat (65 + n)
  else if n < 52 then Char.ofNat (97 + (n - 26))
  else if n < 62 then Char.ofNat (48 + (n - 52))
  else if n = 62 then '+'
  else '/'

/-- The number of a symbol, given as its ASCII byte. -/
def value? (b : UInt8) : Option Nat :=
  if 65 ≤ b && b ≤ 90 then some (b.toNat - 65)
  else if 97 ≤ b && b ≤ 122 then some (b.toNat - 97 + 26)
  else if 48 ≤ b && b ≤ 57 then some (b.toNat - 48 + 52)
  else if b == 43 then some 62
  else if b == 47 then some 63
  else none

/-- The padding sign `=`, as a byte. -/
def pad : UInt8 := 61

/-- Write bytes in Base64. -/
def encode : List UInt8 → List Char
  | [] => []
  | [a] => [symbol (a.toNat / 4), symbol (a.toNat % 4 * 16), '=', '=']
  | [a, b] =>
    [symbol (a.toNat / 4), symbol (a.toNat % 4 * 16 + b.toNat / 16), symbol (b.toNat % 16 * 4), '=']
  | a :: b :: c :: r =>
    symbol (a.toNat / 4) :: symbol (a.toNat % 4 * 16 + b.toNat / 16) ::
      symbol (b.toNat % 16 * 4 + c.toNat / 64) :: symbol (c.toNat % 64) :: encode r

/-- Why a text is no Base64. -/
inductive Fault where
  /-- This byte cannot stand at this offset. -/
  | symbol (byte : UInt8) (offset : Nat)
  /-- The input, so long up to there, ends with a lone symbol. -/
  | length (n : Nat)
  /-- The last symbol, at this offset, carries bits that belong to no byte. -/
  | lastSymbol (byte : UInt8) (offset : Nat)
  /-- The last quad is not filled up. -/
  | padding
  deriving DecidableEq

/-- The wording of a fault. -/
def Fault.message : Fault → String
  | .symbol b i => "Invalid symbol " ++ toString b ++ ", offset " ++ toString i ++ "."
  | .length n => "Invalid input length: " ++ toString n
  | .lastSymbol b i => "Invalid last symbol " ++ toString b ++ ", offset " ++ toString i ++ "."
  | .padding => "Invalid padding"

/-- The number of a symbol at an offset, or the blame for it. -/
def valueAt (b : UInt8) (offset : Nat) : Except Fault Nat :=
  match value? b with
  | some n => .ok n
  | none => .error (.symbol b offset)

/-- The three bytes of a quad of symbols. -/
def bytesOf (w x y z : Nat) : List UInt8 :=
  [UInt8.ofNat (w * 4 + x / 16), UInt8.ofNat (x % 16 * 16 + y / 4), UInt8.ofNat (y % 4 * 64 + z)]

/-- The symbols and the padding of the last quad: their numbers, and how many padding signs follow.
The first two places take no padding, and nothing follows a padding sign but another one. -/
def scanLast (offset : Nat) : List UInt8 → Except Fault (List Nat × Nat)
  | [] => .ok ([], 0)
  | [a] => do
    let w ← valueAt a offset
    return ([w], 0)
  | [a, b] => do
    let w ← valueAt a offset
    let x ← valueAt b (offset + 1)
    return ([w, x], 0)
  | a :: b :: c :: r => do
    let w ← valueAt a offset
    let x ← valueAt b (offset + 1)
    if c = pad then
      match r with
      | [] => return ([w, x], 1)
      | d :: _ => if d = pad then return ([w, x], 2) else .error (.symbol pad (offset + 2))
    else
      let y ← valueAt c (offset + 2)
      match r with
      | [] => return ([w, x, y], 0)
      | d :: _ =>
        if d = pad then return ([w, x, y], 1)
        else
          let z ← valueAt d (offset + 3)
          return ([w, x, y, z], 0)

/-- The bytes of the last quad, which begins at this offset. -/
def decodeLast (offset : Nat) (quad : List UInt8) : Except Fault (List UInt8) := do
  let (values, padding) ← scanLast offset quad
  match values with
  | [] => return []
  | [_] => .error (.length (offset + 1))
  | [w, x] =>
    if padding ≠ 2 then .error .padding
    else if x % 16 ≠ 0 then .error (.lastSymbol (quad.getD 1 0) (offset + 1))
    else return (bytesOf w x 0 0).take 1
  | [w, x, y] =>
    if padding ≠ 1 then .error .padding
    else if y % 4 ≠ 0 then .error (.lastSymbol (quad.getD 2 0) (offset + 2))
    else return (bytesOf w x y 0).take 2
  | w :: x :: y :: z :: _ => return bytesOf w x y z

/-- The bytes of a sequence of quads that begins at this offset. -/
def decodeQuads (offset : Nat) : List UInt8 → Except Fault (List UInt8)
  | a :: b :: c :: d :: e :: r => do
    let w ← valueAt a offset
    let x ← valueAt b (offset + 1)
    let y ← valueAt c (offset + 2)
    let z ← valueAt d (offset + 3)
    let rest ← decodeQuads (offset + 4) (e :: r)
    return bytesOf w x y z ++ rest
  | quad => decodeLast offset quad

/-- Read the bytes of a Base64 text, given as its UTF-8 bytes. -/
def decodeBytes (bs : List UInt8) : Except Fault (List UInt8) :=
  match bs.getLast? with
  | some last =>
    if bs.length % 4 = 1 ∧ last ≠ pad ∧ value? last = none then
      .error (.symbol last (bs.length - 1))
    else decodeQuads 0 bs
  | none => .ok []

/-- Read the bytes of a Base64 text. -/
def decode (cs : List Char) : Except Fault (List UInt8) := decodeBytes (Utf8.encode cs)

end LiveConfig.Text.Base64
