import LiveConfig.SortedMap
import LiveConfig.Yaml.Value

/-!
# Properties of a YAML text

A value is flattened into properties: the fields of a mapping are put behind a point, the items of a
sequence get their index in brackets, and each scalar becomes the value at the name so formed. Null
becomes the empty text, except that a document that is null has no property. Keys that are no
scalars, or null, are left out with what they hold, and tags are ignored.

The documents of a stream are flattened one after the other, a later property replacing an earlier
one of the same name.
-/

namespace LiveConfig.Yaml

/-- The text of a mapping key that names a property. -/
def Value.keyText? : Value → Option String
  | .text s => some s
  | .number n => some n.text
  | .bool b => some (if b then "true" else "false")
  | _ => none

/-- The name of a field of what has a name itself; the whole document has the empty one. -/
def fieldName (under key : String) : String := if under.isEmpty then key else under ++ "." ++ key

/-- The name of an item of what has a name itself. -/
def itemName (under : String) (index : Nat) : String := under ++ "[" ++ toString index ++ "]"

mutual

/-- The properties of a value with a name, in order. -/
def Value.flatten (name : String) : Value → List (String × String)
  | .null => if name.isEmpty then [] else [(name, "")]
  | .bool b => [(name, if b then "true" else "false")]
  | .number n => [(name, n.text)]
  | .text s => [(name, s)]
  | .sequence items => flattenItems name 0 items
  | .mapping pairs => flattenPairs name pairs
  | .tagged _ v => v.flatten name

/-- The properties of the items of a sequence from an index on. -/
def flattenItems (name : String) (index : Nat) : List Value → List (String × String)
  | [] => []
  | v :: r => v.flatten (itemName name index) ++ flattenItems name (index + 1) r

/-- The properties of the pairs of a mapping. -/
def flattenPairs (name : String) : List (Value × Value) → List (String × String)
  | [] => []
  | (k, v) :: r =>
    (match k.keyText? with
      | some key => v.flatten (fieldName name key)
      | none => []) ++ flattenPairs name r

end

/-- The properties of the values of a stream. -/
def flattenAll (vs : List Value) : SortedMap String String :=
  .ofList (vs.flatMap (Value.flatten ""))

/-- The properties of a YAML text. -/
def read (cs : List Char) : Except Fault (SortedMap String String) := do
  return flattenAll (← values cs)

end LiveConfig.Yaml
