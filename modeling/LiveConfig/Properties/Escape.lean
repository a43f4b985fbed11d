/-!
# Escapes in properties texts

A backslash in a key or value changes the meaning of what follows it. `unescape` takes the escapes
out; `escape` puts in those without which a reader would see something else.

A code point above U+FFFF is escaped as two units, one from each half of the surrogate range. A unit
from that range without its partner stands for the replacement character, and what follows it is
read on its own.
-/

namespace LiveConfig.Properties

/-- A space, a tab or a form feed. -/
def isBlank (c : Char) : Bool := c == ' ' || c == '\t' || c == '\x0C'

/-- What can be wrong with an escape: the characters that should be four hexadecimal digits. -/
inductive Fault where
  /-- They are not four bytes long. -/
  | length (digits : List Char)
  /-- They do not form a number. -/
  | digit (digits : List Char)
  deriving DecidableEq

/-- The wording of a fault. -/
def Fault.message : Fault → String
  | .length cs => "malformed \\uxxxx escape: \\u" ++ String.ofList cs
  | .digit cs =>
    "malformed \\uxxxx escape \\u" ++ String.ofList cs ++ ": invalid digit found in string"

/-- The value of a hexadecimal digit. -/
def hexDigit? (c : Char) : Option Nat :=
  if '0' ≤ c ∧ c ≤ '9' then some (c.toNat - '0'.toNat)
  else if 'a' ≤ c ∧ c ≤ 'f' then some (c.toNat - 'a'.toNat + 10)
  else if 'A' ≤ c ∧ c ≤ 'F' then some (c.toNat - 'A'.toNat + 10)
  else none

/-- The number that hexadecimal digits form behind a number read so far. -/
def hexFrom (acc : Nat) : List Char → Option Nat
  | [] => some acc
  | c :: r =>
    match hexDigit? c with
    | some d => hexFrom (acc * 16 + d) r
    | none => none

/-- The number of a hexadecimal text, which may begin with a plus sign. -/
def hexNumber? : List Char → Option Nat
  | [] => none
  | ['+'] => none
  | '+' :: r => hexFrom 0 r
  | cs => hexFrom 0 cs

/-- How many bytes a text takes in UTF-8. -/
def byteLength (cs : List Char) : Nat := cs.foldr (fun c n => c.utf8Size + n) 0

/-- The unit that the digits of an escape form. -/
def unitOf (digits : List Char) : Except Fault Nat :=
  if byteLength digits ≠ 4 then .error (.length digits)
  else
    match hexNumber? digits with
    | some n => .ok n
    | none => .error (.digit digits)

/-- Whether a unit is the first one of a pair. -/
def isHigh (u : Nat) : Bool := 0xD800 ≤ u && u < 0xDC00

/-- Whether a unit is the second one of a pair. -/
def isLow (u : Nat) : Bool := 0xDC00 ≤ u && u < 0xE000

/-- The character that stands for what is none. -/
def replacement : Char := '\uFFFD'

/-- The character of a unit without a partner. -/
def ofUnit (u : Nat) : Char := if isHigh u || isLow u then replacement else Char.ofNat u

/-- The character of a pair of units. -/
def ofPair (high low : Nat) : Char :=
  Char.ofNat (0x10000 + (high - 0xD800) * 0x400 + (low - 0xDC00))

/-- The character that a letter behind a backslash stands for; most stand for themselves. -/
def ofLetter (c : Char) : Char :=
  if c = 'n' then '\n' else if c = 't' then '\t' else if c = 'r' then '\r'
  else if c = 'f' then '\x0C' else c

/-- What a text with escapes stands for. A backslash at the end stands for nothing. The first number
bounds the steps; each takes a character at least. -/
def unescapeFrom : Nat → List Char → Except Fault (List Char)
  | _, [] => .ok []
  | _, ['\\'] => .ok []
  | 0, _ => .ok []
  | fuel + 1, '\\' :: 'u' :: r => do
    let u ← unitOf (r.take 4)
    let r := r.drop 4
    match isHigh u, r with
    | true, '\\' :: 'u' :: s => do
      let v ← unitOf (s.take 4)
      if isLow v then return ofPair u v :: (← unescapeFrom fuel (s.drop 4))
      else return replacement :: (← unescapeFrom fuel r)
    | _, _ => return ofUnit u :: (← unescapeFrom fuel r)
  | fuel + 1, '\\' :: c :: r => do return ofLetter c :: (← unescapeFrom fuel r)
  | fuel + 1, c :: r => do return c :: (← unescapeFrom fuel r)

/-- What a text with escapes stands for. -/
def unescape (cs : List Char) : Except Fault (List Char) := unescapeFrom cs.length cs

/-- Whether a character has to be escaped in a key although it is an ordinary one. -/
def endsKey (c : Char) : Bool := c == '=' || c == ':' || c == ' ' || c == '#' || c == '!'

/-- One character of a key or value with its escape, if it needs one. A space needs one in a key,
and in a value when it comes first. -/
def escapeChar (inKey first : Bool) (c : Char) : List Char :=
  if c = '\\' then ['\\', '\\']
  else if c = '\n' then ['\\', 'n']
  else if c = '\r' then ['\\', 'r']
  else if c = '\t' then ['\\', 't']
  else if c = '\x0C' then ['\\', 'f']
  else if c = ' ' ∧ first then ['\\', ' ']
  else if inKey ∧ endsKey c then ['\\', c]
  else [c]

/-- A key or value with the escapes it needs. -/
def escape (inKey : Bool) : List Char → List Char
  | [] => []
  | c :: r => escapeChar inKey true c ++ r.flatMap (escapeChar inKey false)

end LiveConfig.Properties
