import LiveConfig.Object

/-!
# Snapshots

A snapshot is the merged configuration of one moment: its properties, and which version of each
source they come from. Only the properties matter to the application, so two snapshots are alike if
those are; `Snapshot.changes` says in which keys they differ.
-/

namespace LiveConfig

/-- The properties of one moment and the versions of their sources. -/
structure Snapshot where
  properties : SortedMap String String
  versions : SortedMap ObjectKey String
  deriving DecidableEq

/-- The keys in which one snapshot differs from another, each list ascending. -/
structure Changes where
  added : List String
  removed : List String
  changed : List String
  deriving DecidableEq

/-- Whether there is no change. -/
def Changes.isEmpty (c : Changes) : Bool :=
  c.added.isEmpty && c.removed.isEmpty && c.changed.isEmpty

namespace Snapshot

/-- The snapshot without any source. -/
def empty : Snapshot := ⟨∅, ∅⟩

instance : EmptyCollection Snapshot := ⟨empty⟩

/-- What is left of a key behind a qualifier and a point. -/
def unqualified? (qualifier key : String) : Option String :=
  let lead := qualifier.toList ++ ['.']
  if lead.isPrefixOf key.toList then some (String.ofList (key.toList.drop lead.length)) else none

/-- The properties under a qualifier, by what is left of their keys. -/
def under (s : Snapshot) (qualifier : String) : List (String × String) :=
  s.properties.entries.filterMap (fun e => (unqualified? qualifier e.1).map (·, e.2))

/-- Whether two snapshots have the same properties, whatever the versions of their sources. -/
def alike (s t : Snapshot) : Bool := s.properties == t.properties

/-- The keys that change on the way from one snapshot to another. -/
def changes (s t : Snapshot) : Changes where
  added := t.properties.keys.filter (fun k => !s.properties.contains k)
  removed := s.properties.keys.filter (fun k => !t.properties.contains k)
  changed := (t.properties.entries.filter (fun e =>
    match s.properties.get? e.1 with
    | some v => v != e.2
    | none => false)).map (·.1)

end Snapshot

end LiveConfig
