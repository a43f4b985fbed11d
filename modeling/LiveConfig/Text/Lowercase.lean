import LiveConfig.Text.LetterCase

/-!
# Lower case

Full lower-casing of a text. Each character is replaced by its lower-case form, a dotted capital I
by two characters; a capital sigma takes its final form at the end of a word, that is when a cased
letter stands before it and none after it, characters that casing ignores left aside.
-/

namespace LiveConfig.Text

/-- The lower-case form of one character, without regard to its neighbours. -/
def lowerChar (c : Char) : List Char :=
  if c.toNat < 0x80 then [c.toLower]
  else if c = 'İ' then ['i', '\u0307']
  else
    match lowerShifts.find? (fun (lo, hi, step, _) =>
        decide (lo ≤ c.toNat) && decide (c.toNat ≤ hi) && (c.toNat - lo) % step == 0) with
    | some (_, _, _, shift) => [Char.ofNat (Int.toNat (c.toNat + shift))]
    | none => [c]

/-- Whether the first character that casing does not ignore is a cased one. -/
def meetsCased (cs : List Char) : Bool :=
  match cs.dropWhile caseIgnorable.has with
  | [] => false
  | c :: _ => cased.has c

/-- The lower-case form of a text whose already treated characters are given in reverse. -/
def lowerAfter (before : List Char) : List Char → List Char
  | [] => []
  | c :: r =>
    let lowered :=
      if c = 'Σ' then
        if meetsCased before && !meetsCased r then ['ς'] else ['σ']
      else lowerChar c
    lowered ++ lowerAfter (c :: before) r

/-- A text in lower case. -/
def lowercase (s : String) : String := String.ofList (lowerAfter [] s.toList)

end LiveConfig.Text
