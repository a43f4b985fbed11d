import LiveConfig.Binding.KeyPath
import LiveConfig.Snapshot

/-!
# Property trees

Properties arranged by the paths that their keys spell out: records of fields, lists of items, and
texts at the ends. Items of a list that no property names are null.

Properties are put into the tree in the order of their keys. A text never takes the place of a
record or list that has something in it; a record or list takes the place of whatever else is in
its way.
-/

namespace LiveConfig.Binding

/-- A tree of texts. The fields of a record are in ascending order of their names. -/
inductive Tree where
  | null
  | text (s : String)
  | list (items : List Tree)
  | record (fields : List (String × Tree))

namespace Tree

/-- Whether a tree is a record or list with something in it. -/
def isPopulated : Tree → Bool
  | .list items => !items.isEmpty
  | .record fields => !fields.isEmpty
  | _ => false

/-- The fields of a record; other trees have none. -/
def fields : Tree → List (String × Tree)
  | .record fs => fs
  | _ => []

/-- The items of a list; other trees have none. -/
def items : Tree → List Tree
  | .list ts => ts
  | _ => []

/-- Items, made up to at least so many with nulls. -/
def pad (n : Nat) (ts : List Tree) : List Tree := ts ++ List.replicate (n - ts.length) .null

/-- Put a text at a path. -/
def put (value : String) : List Segment → Tree → Tree
  | [], t => if t.isPopulated then t else .text value
  | .field name :: path, t =>
    let child := (SortedMap.lookup name t.fields).getD .null
    .record (SortedMap.insertEntry name (put value path child) t.fields)
  | .index i :: path, t =>
    let ts := pad (i + 1) t.items
    .list (ts.set i (put value path (ts.getD i .null)))

/-- The tree of properties, put in one after the other. -/
def ofProperties (properties : List (String × String)) : Tree :=
  properties.foldl (fun t e => t.put e.2 (pathOf e.1)) (.record [])

/-- The tree of the properties of a snapshot under a qualifier, of all of them if it is empty. -/
def ofSnapshot (s : Snapshot) (qualifier : String) : Tree :=
  ofProperties (if qualifier.isEmpty then s.properties.entries else s.under qualifier)

end Tree

end LiveConfig.Binding
