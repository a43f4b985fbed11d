import LiveConfig.Rule

/-!
# Interest in objects

Which objects matter: single objects by key, whether or not they exist, and objects that carry
labels. An interest says which scopes have to be watched and which changes there are of concern.

Keys form a set. Selectors keep the order in which they were added, and the order counts when two
interests are compared.
-/

namespace LiveConfig

/-- All objects of a scope that carry some labels. -/
structure Selector where
  scope : Scope
  labels : Labels
  deriving DecidableEq

/-- The objects that matter. -/
structure Interest where
  keys : SortedMap ObjectKey Unit
  selectors : List Selector
  deriving DecidableEq

namespace Interest

/-- Interest in nothing. -/
def empty : Interest := ⟨∅, []⟩

instance : EmptyCollection Interest := ⟨empty⟩

/-- Interest in one more object. -/
def addKey (i : Interest) (k : ObjectKey) : Interest := { i with keys := i.keys.insert k () }

/-- Interest in the objects of one more selector; a selector is kept once. -/
def addSelector (i : Interest) (s : Selector) : Interest :=
  if s ∈ i.selectors then i else { i with selectors := i.selectors ++ [s] }

/-- Whether an object is of concern because of its labels. -/
def selects (i : Interest) (k : ObjectKey) (labels : Labels) : Bool :=
  i.selectors.any (fun s => s.scope == k.scope && s.labels.subset labels)

/-- Whether an object is of concern. Of an object that is gone no labels are known. -/
def covers (i : Interest) (k : ObjectKey) (labels : Option Labels) : Bool :=
  i.keys.contains k ||
    match labels with
    | some ls => i.selects k ls
    | none => false

/-- The scopes to watch, each once and in order. -/
def scopes (i : Interest) : List Scope :=
  (SortedMap.ofList ((i.keys.keys.map ObjectKey.scope ++ i.selectors.map Selector.scope).map
    (·, ()))).keys

/-- The part of an interest that is about the kinds that pass a test. -/
def restrict (p : Kind → Bool) (i : Interest) : Interest where
  keys := i.keys.filter (fun k _ => p k.kind)
  selectors := i.selectors.filter (fun s => p s.scope.kind)

/-- Whether nothing is of concern. -/
def isEmpty (i : Interest) : Bool := i.keys.isEmpty && i.selectors.isEmpty

end Interest

/-- The kinds to monitor: config maps if the first flag is set, secrets if the second is. -/
def Kind.monitored (configMaps secrets : Bool) : Kind → Bool
  | .configMap => configMaps
  | .secret => secrets

end LiveConfig
