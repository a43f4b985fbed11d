import LiveConfig.Decimal.Natural

/-!
# Paths that property keys spell out

A key is split at its points, and each part names a field. A part may end in indices in brackets,
`hosts[0][1]`, which then name items of lists. An index from 1024 on is no index, and a part with
brackets that are not well formed to its very end is the name of a field as it stands.
-/

namespace LiveConfig.Binding

/-- One step of a path. -/
inductive Segment where
  | field (name : String)
  | index (i : Nat)
  deriving DecidableEq

/-- So many items a list may have. -/
def listLimit : Nat := 1024

/-- The index that stands between brackets. -/
def index? (cs : List Char) : Option Nat := (Decimal.natural? cs).filter (· < listLimit)

/-- The indices of a text that consists of them alone. The characters since the last open bracket,
if one is open, are given in reverse. -/
def indicesFrom : Option (List Char) → List Char → Option (List Nat)
  | none, [] => some []
  | none, c :: r => if c = '[' then indicesFrom (some []) r else none
  | some _, [] => none
  | some inner, c :: r =>
    if c = ']' then
      match index? inner.reverse with
      | some i => (indicesFrom none r).map (i :: ·)
      | none => none
    else indicesFrom (some (c :: inner)) r

/-- The steps of one part of a key. -/
def segmentsOf (part : List Char) : List Segment :=
  let name := part.takeWhile (· ≠ '[')
  match indicesFrom none (part.dropWhile (· ≠ '[')) with
  | some is => .field (String.ofList name) :: is.map .index
  | none => [.field (String.ofList part)]

/-- The parts of a key between its points. -/
def partsOf : List Char → List (List Char)
  | [] => [[]]
  | c :: r =>
    if c = '.' then [] :: partsOf r
    else
      match partsOf r with
      | [] => [[c]]
      | p :: ps => (c :: p) :: ps

/-- The path that a key spells out. -/
def pathOf (key : String) : List Segment := (partsOf key.toList).flatMap segmentsOf

end LiveConfig.Binding
