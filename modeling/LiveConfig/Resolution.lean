import LiveConfig.Interest
import LiveConfig.Snapshot.Build

/-!
# Resolution of rules

Rules are resolved against a cluster in the order of their declaration. A rule that names an object
finds that object and then its variants, one for each active profile; a rule that gives labels finds
every object that carries them, in the order of the names. What is found is kept together with the
layers it is put into, so that a snapshot is built from exactly the objects that were found.

A cluster is asked in a monad of its own: its answers may fail, and they may differ from one request
to the next.
-/

namespace LiveConfig

universe u

/-- What a cluster can be asked for. -/
structure Cluster (m : Type → Type u) where
  /-- The object with a key, if there is one. -/
  get : ObjectKey → m (Option Object)
  /-- The objects of a scope that carry labels, in any order. -/
  list : Scope → Labels → m (List Object)

/-- What to do if no object carries the labels that a rule gives. -/
inductive EmptyPolicy where
  /-- Go on without an object. -/
  | proceed
  /-- Give up. -/
  | fail
  deriving DecidableEq

/-- Settings that all rules share. -/
structure Options where
  /-- Whether it is a failure if an object that a rule names does not exist. -/
  failFast : Bool
  emptySelector : EmptyPolicy
  /-- Whether entries are put under the object's name where a rule does not say. -/
  nameQualifies : Bool
  /-- The active profiles. -/
  profiles : List String
  deriving DecidableEq

namespace Options

/-- The settings if nothing is said. -/
def standard : Options := ⟨true, .proceed, false, []⟩

/-- The names of an object's variants for the active profiles. -/
def variants (o : Options) (name : String) : List String :=
  o.profiles.map (fun p => name ++ "-" ++ p)

end Options

namespace Rule

/-- The namespace of a rule, given the general one. -/
def spaceIn (r : Rule) (space : String) : String := r.space.getD space

/-- The scope of a rule, given the general namespace. -/
def scopeIn (r : Rule) (space : String) : Scope := ⟨r.kind, r.spaceIn space⟩

/-- The key of an object that a rule finds under a name. -/
def keyIn (r : Rule) (space name : String) : ObjectKey := ⟨r.kind, r.spaceIn space, name⟩

/-- The qualifier for entries of an object with a name: the rule's own unless that is empty, or else
the name, if names qualify. -/
def qualifierFor (r : Rule) (o : Options) (name : String) : Option String :=
  match r.qualifier.filter (!·.isEmpty) with
  | some q => some q
  | none => if r.nameQualifies.getD o.nameQualifies then some name else none

end Rule

/-- An object that was found and the qualifier for its entries. -/
structure Finding where
  object : Object
  qualifier : Option String
  deriving DecidableEq

/-- The names of objects in ascending order come first, others of the same name stay in order. -/
def sortByName (os : List Object) : List Object :=
  os.mergeSort (fun a b => decide (a.key.name ≤ b.key.name))

section Resolve

variable {m : Type → Type u} [Monad m] [MonadExcept Failure m]

/-- The objects that exist among those with some names, all under one qualifier. -/
def findAll (c : Cluster m) (r : Rule) (space : String) (qualifier : Option String) :
    List String → m (List Finding)
  | [] => pure []
  | name :: rest => do
    let found ← c.get (r.keyIn space name)
    let others ← findAll c r space qualifier rest
    return (found.map (⟨·, qualifier⟩)).toList ++ others

/-- The object that a rule names and its variants. -/
def findNamed (c : Cluster m) (o : Options) (r : Rule) (space name : String) :
    m (List Finding) := do
  let found ← c.get (r.keyIn space name)
  if found.isNone && o.failFast then
    throw (.absent r.kind (r.spaceIn space) name)
  else
    let qualifier := r.qualifierFor o name
    let others ← findAll c r space qualifier (o.variants name)
    return (found.map (⟨·, qualifier⟩)).toList ++ others

/-- The objects that carry the labels a rule gives. -/
def findLabelled (c : Cluster m) (o : Options) (r : Rule) (space : String) (labels : Labels) :
    m (List Finding) := do
  let found ← c.list (r.scopeIn space) labels
  if found.isEmpty && o.emptySelector == .fail then
    throw (.noneSelected r.kind (r.spaceIn space) labels)
  else
    return (sortByName found).map (fun x => ⟨x, r.qualifierFor o x.key.name⟩)

/-- The objects that a rule finds. -/
def findBy (c : Cluster m) (o : Options) (space : String) (r : Rule) : m (List Finding) :=
  match r.selection with
  | .named name => findNamed c o r space name
  | .labelled labels => findLabelled c o r space labels

/-- The objects that rules find, one rule after the other. -/
def findByAll (c : Cluster m) (o : Options) (space : String) : List Rule → m (List Finding)
  | [] => pure []
  | r :: rest => do
    let found ← findBy c o space r
    let others ← findByAll c o space rest
    return found ++ others

end Resolve

/-- What rules find: the layers of a snapshot, and the objects in them. -/
structure Resolution where
  layers : List Layer
  objects : SortedMap ObjectKey Object
  deriving DecidableEq

namespace Resolution

/-- The resolution that consists of some findings. An object that was found again replaces the
earlier one. -/
def ofFindings (fs : List Finding) : Resolution where
  layers := fs.map (fun f => ⟨f.object.key, f.qualifier⟩)
  objects := .ofList (fs.map (fun f => (f.object.key, f.object)))

/-- The snapshot of a resolution. -/
def snapshot (r : Resolution) : Except Failure Snapshot :=
  Snapshot.build (fun k => r.objects.get? k) r.layers

end Resolution

/-- Resolve rules against a cluster, in a namespace unless a rule has its own. -/
def resolve {m : Type → Type u} [Monad m] [MonadExcept Failure m] (c : Cluster m) (o : Options)
    (space : String) (rules : List Rule) : m Resolution := do
  let fs ← findByAll c o space rules
  return .ofFindings fs

/-- What a rule makes one interested in: the object that it names, present or not, and the variants
of it, or all objects with the labels that it gives. -/
def Rule.interest (o : Options) (space : String) (i : Interest) (r : Rule) : Interest :=
  match r.selection with
  | .named name => ((name :: o.variants name).map (r.keyIn space)).foldl Interest.addKey i
  | .labelled labels => i.addSelector ⟨r.scopeIn space, labels⟩

/-- The objects whose changes can change what rules resolve to, given what they resolved to. -/
def Interest.ofRules (o : Options) (space : String) (rules : List Rule) (r : Resolution) :
    Interest :=
  r.objects.keys.foldl Interest.addKey (rules.foldl (Rule.interest o space) ∅)

end LiveConfig
