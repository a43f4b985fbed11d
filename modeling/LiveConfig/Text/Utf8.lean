/-!
# Bytes and text

The UTF-8 form of a text and the reader that gives a text back. The reader names the first fault:
the index of the first byte that belongs to no character, and either how many bytes the broken
sequence spans or that the input stopped inside a sequence.

`decode (encode cs) = .ok cs` is the law of the pair; the reader accepts nothing else, because a
lead byte narrows the range of the byte after it exactly so far that no overlong form, surrogate or
code point above U+10FFFF is left.
-/

namespace LiveConfig.Text.Utf8

/-- The UTF-8 bytes of a text. -/
def encode (cs : List Char) : List UInt8 := cs.flatMap String.utf8EncodeChar

/-- Why a sequence of bytes is no UTF-8 text. -/
inductive Fault where
  /-- The bytes from this index on begin no character; so many of them are to blame. -/
  | invalid (index span : Nat)
  /-- The input ends inside the character that begins at this index. -/
  | incomplete (index : Nat)
  deriving DecidableEq

/-- The wording of a fault. -/
def Fault.message : Fault → String
  | .invalid i n =>
    "invalid utf-8 sequence of " ++ toString n ++ " bytes from index " ++ toString i
  | .incomplete i => "incomplete utf-8 byte sequence from index " ++ toString i

/-- Whether a byte continues a character. -/
def isContinuation (b : UInt8) : Bool := 0x80 ≤ b && b ≤ 0xBF

/-- Whether the second byte of a three-byte character may follow its lead byte: this excludes
overlong forms and surrogates. -/
def fitsThree (lead b : UInt8) : Bool :=
  (lead == 0xE0 && 0xA0 ≤ b && b ≤ 0xBF) || (0xE1 ≤ lead && lead ≤ 0xEC && isContinuation b) ||
    (lead == 0xED && 0x80 ≤ b && b ≤ 0x9F) || (0xEE ≤ lead && lead ≤ 0xEF && isContinuation b)

/-- Whether the second byte of a four-byte character may follow its lead byte: this excludes
overlong forms and code points above U+10FFFF. -/
def fitsFour (lead b : UInt8) : Bool :=
  (lead == 0xF0 && 0x90 ≤ b && b ≤ 0xBF) || (0xF1 ≤ lead && lead ≤ 0xF3 && isContinuation b) ||
    (lead == 0xF4 && 0x80 ≤ b && b ≤ 0x8F)

/-- The six bits that a continuation byte carries. -/
def low (b : UInt8) : Nat := b.toNat % 64

/-- Read bytes as text, the first of them standing at index `i` of the input. -/
def decodeFrom (i : Nat) : List UInt8 → Except Fault (List Char)
  | [] => .ok []
  | a :: r =>
    if a < 0x80 then do
      let cs ← decodeFrom (i + 1) r
      return Char.ofNat a.toNat :: cs
    else if 0xC2 ≤ a && a ≤ 0xDF then
      match r with
      | [] => .error (.incomplete i)
      | b :: r =>
        if isContinuation b then do
          let cs ← decodeFrom (i + 2) r
          return Char.ofNat (a.toNat % 32 * 64 + low b) :: cs
        else .error (.invalid i 1)
    else if 0xE0 ≤ a && a ≤ 0xEF then
      match r with
      | [] => .error (.incomplete i)
      | b :: r =>
        if fitsThree a b then
          match r with
          | [] => .error (.incomplete i)
          | c :: r =>
            if isContinuation c then do
              let cs ← decodeFrom (i + 3) r
              return Char.ofNat ((a.toNat % 16 * 64 + low b) * 64 + low c) :: cs
            else .error (.invalid i 2)
        else .error (.invalid i 1)
    else if 0xF0 ≤ a && a ≤ 0xF4 then
      match r with
      | [] => .error (.incomplete i)
      | b :: r =>
        if fitsFour a b then
          match r with
          | [] => .error (.incomplete i)
          | c :: r =>
            if isContinuation c then
              match r with
              | [] => .error (.incomplete i)
              | d :: r =>
                if isContinuation d then do
                  let cs ← decodeFrom (i + 4) r
                  return Char.ofNat (((a.toNat % 8 * 64 + low b) * 64 + low c) * 64 + low d) :: cs
                else .error (.invalid i 3)
            else .error (.invalid i 2)
        else .error (.invalid i 1)
    else .error (.invalid i 1)

/-- Read bytes as text. -/
def decode (bs : List UInt8) : Except Fault (List Char) := decodeFrom 0 bs

end LiveConfig.Text.Utf8
