import LiveConfig.Text.Unprintable

/-!
# Quoted text

A text between double quotes in which every character can be told apart: quotes, backslashes and
the common control characters are written with a backslash, and a character that does not show on
its own is written as its code point.
-/

namespace LiveConfig.Text

/-- The hexadecimal digits of a number, in lower case and without leading zeros. -/
def hexDigits (n : Nat) : String := String.ofList (Nat.toDigits 16 n)

/-- The form of one character inside quotes. -/
def quoteChar (c : Char) : String :=
  if c = '\x00' then "\\0"
  else if c = '\t' then "\\t"
  else if c = '\r' then "\\r"
  else if c = '\n' then "\\n"
  else if c = '\\' then "\\\\"
  else if c = '"' then "\\\""
  else if c.toNat < 0x7F ∧ 0x20 ≤ c.toNat then String.singleton c
  else if isUnprintable c then "\\u\x7b" ++ hexDigits c.toNat ++ "\x7d"
  else String.singleton c

/-- A text between quotes. -/
def quote (s : String) : String := "\"" ++ String.join (s.toList.map quoteChar) ++ "\""

/-- The entries of a map as quoted pairs between braces. -/
def quotePairs (entries : List (String × String)) : String :=
  "\x7b" ++ ", ".intercalate (entries.map (fun e => quote e.1 ++ ": " ++ quote e.2)) ++ "\x7d"

end LiveConfig.Text
