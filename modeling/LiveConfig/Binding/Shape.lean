import LiveConfig.Binding.Tree

/-!
# Fitting a tree to a shape

A shape says what a part of an application expects of its configuration. Fitting keeps what is
expected and drops fields that are not; the fit fails if something expected is missing or of the
wrong kind. Texts stay texts, so nothing fits a number.
-/

namespace LiveConfig.Binding

/-- What is expected of a tree. -/
inductive Shape where
  /-- A text. -/
  | text
  /-- A text or nothing. -/
  | optionalText
  /-- A number. -/
  | number
  /-- A list of items of one shape. -/
  | list (item : Shape)
  /-- A record with fields of any name and one shape. -/
  | dictionary (field : Shape)
  /-- A record with these fields, or a list of their values in this order. -/
  | record (fields : List (String × Shape))

namespace Shape

/-- Whether a field of this shape may be missing from a record. -/
def isOptional : Shape → Bool
  | .optionalText => true
  | _ => false

/-- The images of the members of a list, if all of them have one. -/
def allOrNone {α β : Type} (f : α → Option β) : List α → Option (List β)
  | [] => some []
  | a :: r =>
    match f a with
    | none => none
    | some b => (allOrNone f r).map (b :: ·)

mutual

/-- What a shape makes of a tree. -/
def fit : Shape → Tree → Option Tree
  | .text, .text s => some (.text s)
  | .optionalText, .text s => some (.text s)
  | .optionalText, .null => some .null
  | .list item, .list ts => (allOrNone (fun t => item.fit t) ts).map .list
  | .dictionary field, .record fs =>
    (allOrNone (fun e => (field.fit e.2).map (fun t => (e.1, t))) fs).map .record
  | .record wanted, .record fs => (fitFields wanted fs).map .record
  | .record wanted, .list ts => (fitItems wanted ts).map .record
  | _, _ => none

/-- What the expected fields are in a record. -/
def fitFields : List (String × Shape) → List (String × Tree) → Option (List (String × Tree))
  | [], _ => some []
  | (name, shape) :: r, fs =>
    let found := match SortedMap.lookup name fs with
      | some t => shape.fit t
      | none => if shape.isOptional then some .null else none
    match found with
    | none => none
    | some t => (fitFields r fs).map ((name, t) :: ·)

/-- What the expected fields are in a list of exactly their values. -/
def fitItems : List (String × Shape) → List Tree → Option (List (String × Tree))
  | [], [] => some []
  | (name, shape) :: r, t :: ts =>
    match shape.fit t with
    | none => none
    | some t => (fitItems r ts).map ((name, t) :: ·)
  | _, _ => none

end

end Shape

end LiveConfig.Binding
