import LiveConfig.SortedMap
import LiveConfig.Yaml.Value

/-!
# Typed fields of a YAML document

What a node gives where something of a certain type is expected: a text, a truth value, a list, a
mapping with known fields. Where a text is expected every scalar is one, as it is written. A field
that may be missing is also missing if its node is null. An empty plain scalar stands for an empty
list or mapping.
-/

namespace LiveConfig.Yaml

namespace Node

/-- Whether a node is a plain scalar without text, or nothing at all. -/
def isBlank : Node → Bool
  | .absent => true
  | .scalar _ s style => s.isEmpty && style == .plain
  | _ => false

/-- The text of a scalar as it is written. -/
def text? : Node → Option String
  | .scalar _ s _ => some s
  | _ => none

/-- The truth value of a plain scalar, or of one that is tagged as such and written as a block. -/
def bool? : Node → Option Bool
  | .scalar tag s style =>
    if style = .plain ∨ (style = .literal ∧ tag = some (coreTag "bool")) then boolWord? s else none
  | _ => none

/-- Whether a node stands for a missing value. Only null may be tagged as null. -/
def isMissing? : Node → Option Bool
  | .absent => some true
  | .scalar none s .plain => some (s.isEmpty || isNullWord s)
  | .scalar (some t) s .plain =>
    if t = coreTag "null" then (if isNullWord s then some true else none) else some false
  | _ => some false

/-- A node that may stand for a missing value. -/
def optional? {α : Type} (read : Node → Option α) (n : Node) : Option (Option α) :=
  match n.isMissing? with
  | none => none
  | some true => some none
  | some false => (read n).map some

/-- The images of the members of a list, if all of them have one. -/
def readAll {α β : Type} (read : α → Option β) : List α → Option (List β)
  | [] => some []
  | a :: r =>
    match read a, readAll read r with
    | some b, some bs => some (b :: bs)
    | _, _ => none

/-- A list of items of one type. -/
def list? {α : Type} (read : Node → Option α) : Node → Option (List α)
  | .sequence _ items => readAll read items
  | n => if n.isBlank then some [] else none

/-- A mapping as pairs of a name and a node. -/
def pairs? : Node → Option (List (String × Node))
  | .mapping _ pairs => readAll (fun p => (p.1.text?).map (·, p.2)) pairs
  | n => if n.isBlank then some [] else none

/-- A mapping of texts to texts, in which the last pair of a key counts. -/
def textMap? (n : Node) : Option (SortedMap String String) :=
  match n.pairs? with
  | none => none
  | some ps => (readAll (fun p => (p.2.text?).map (p.1, ·)) ps).map SortedMap.ofList

/-- Whether no name is repeated. -/
def distinctNames : List String → Bool
  | [] => true
  | s :: r => !r.contains s && distinctNames r

/-- The fields of a mapping none of which is repeated and each of which has one of these names. -/
def fields? (names : List String) (n : Node) : Option (List (String × Node)) :=
  match n.pairs? with
  | none => none
  | some ps =>
    if distinctNames (ps.map (·.1)) && ps.all (fun p => names.contains p.1) then some ps else none

end Node

/-- The value of a field, or a standard value if the field does not occur. -/
def fieldOr {α : Type} (read : Node → Option α) (standard : α) (name : String)
    (fields : List (String × Node)) : Option α :=
  match fields.lookup name with
  | some n => read n
  | none => some standard

end LiveConfig.Yaml
