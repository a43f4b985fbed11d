import LiveConfig.Object

/-!
# Rules that select sources

A rule declares which objects configuration is read from, in which namespace, and under which
qualifier their entries are put.
-/

namespace LiveConfig

/-- How a rule picks objects. -/
inductive Selection where
  /-- The object with a name. -/
  | named (name : String)
  /-- Every object that carries all of these labels. -/
  | labelled (labels : Labels)
  deriving DecidableEq

/-- Whether labels satisfy a selection. A selection by name has nothing to do with labels. -/
def Selection.matchesLabels (s : Selection) (labels : Labels) : Bool :=
  match s with
  | .named _ => false
  | .labelled wanted => wanted.subset labels

/-- Labels in the cluster's notation for selectors. -/
def Labels.selector (labels : Labels) : String :=
  ",".intercalate (labels.entries.map (fun e => e.1 ++ "=" ++ e.2))

/-- A declared source. -/
structure Rule where
  kind : Kind
  selection : Selection
  /-- Whether entries are put under the object's name; the general setting counts if nothing is
  said. -/
  nameQualifies : Option Bool
  /-- A qualifier that goes before everything else, unless it is empty. -/
  qualifier : Option String
  /-- The namespace, if it is not the general one. -/
  space : Option String
  deriving DecidableEq

/-- An object among the sources of a snapshot, with the qualifier that its entries are put under. -/
structure Layer where
  key : ObjectKey
  qualifier : Option String
  deriving DecidableEq

end LiveConfig
