import LiveConfig.Rule
import LiveConfig.Text.Blank
import LiveConfig.Yaml.Field

/-!
# Manifests

A manifest is a YAML document that declares the sources of configuration: config maps and secrets,
each list in order. Every entry gives either a name or labels. The rules of the config maps come
before those of the secrets, so that secrets take precedence.
-/

namespace LiveConfig

/-- An entry as it is written. -/
structure Entry where
  name : Option String
  labels : Option Labels
  /-- Whether the object's name qualifies its properties. -/
  nameQualifies : Option Bool
  /-- A qualifier for the properties. -/
  qualifier : Option String
  space : Option String
  deriving DecidableEq

/-- What can be wrong with an entry. -/
inductive EntryFault where
  | blankName
  | noLabels
  | nameAndLabels
  | noSelection
  deriving DecidableEq

/-- The wording of what is wrong with an entry. -/
def EntryFault.message : EntryFault → String
  | .blankName => "name must not be empty"
  | .noLabels => "labels must not be empty"
  | .nameAndLabels => "set either name or labels, not both"
  | .noSelection => "one of name or labels is required"

namespace Entry

/-- What an entry selects. -/
def selection (e : Entry) : Except EntryFault Selection :=
  match e.name, e.labels with
  | some name, none => if Text.isBlank name then .error .blankName else .ok (.named name)
  | none, some labels => if labels.isEmpty then .error .noLabels else .ok (.labelled labels)
  | some _, some _ => .error .nameAndLabels
  | none, none => .error .noSelection

/-- The rule for objects of a kind that an entry declares. -/
def rule (kind : Kind) (e : Entry) : Except EntryFault Rule := do
  let s ← e.selection
  return ⟨kind, s, e.nameQualifies, e.qualifier, e.space⟩

/-- The names of the fields of an entry. -/
def fieldNames : List String :=
  ["name", "labels", "useNameAsPrefix", "explicitPrefix", "namespace"]

/-- The entry that a node describes. -/
def ofNode? (n : Yaml.Node) : Option Entry := do
  let fs ← n.fields? fieldNames
  let name ← Yaml.fieldOr (Yaml.Node.optional? Yaml.Node.text?) none "name" fs
  let labels ← Yaml.fieldOr (Yaml.Node.optional? Yaml.Node.textMap?) none "labels" fs
  let nameQualifies ← Yaml.fieldOr (Yaml.Node.optional? Yaml.Node.bool?) none "useNameAsPrefix" fs
  let qualifier ← Yaml.fieldOr (Yaml.Node.optional? Yaml.Node.text?) none "explicitPrefix" fs
  let space ← Yaml.fieldOr (Yaml.Node.optional? Yaml.Node.text?) none "namespace" fs
  return ⟨name, labels, nameQualifies, qualifier, space⟩

end Entry

/-- The declared sources. -/
structure Manifest where
  /-- The namespace of entries without their own. -/
  space : Option String
  /-- Whether names qualify properties where an entry does not say. -/
  nameQualifies : Bool
  profiles : List String
  configMaps : List Entry
  secrets : List Entry
  deriving DecidableEq

namespace Manifest

/-- What can be wrong with a manifest. -/
inductive Fault where
  /-- It is not YAML. -/
  | yaml (f : Yaml.Fault)
  /-- It does not have the fields of a manifest, or not of the right type. -/
  | fields
  /-- An entry for a kind of objects, by its place in the list, is in disorder. -/
  | entry (kind : Kind) (index : Nat) (f : EntryFault)

/-- The name of the list of entries for a kind of objects. -/
def listName : Kind → String
  | .configMap => "configMaps"
  | .secret => "secrets"

/-- The wording of what is wrong with a manifest. -/
def Fault.message : Fault → String
  | .yaml _ => "Failed to parse sources YAML"
  | .fields => "Failed to parse sources YAML"
  | .entry kind index f => listName kind ++ "[" ++ toString index ++ "]: " ++ f.message

/-- The names of the fields of a manifest. -/
def fieldNames : List String := ["namespace", "useNameAsPrefix", "profiles", "configMaps", "secrets"]

/-- The manifest that a node describes. -/
def ofNode? (n : Yaml.Node) : Option Manifest := do
  let fs ← n.fields? fieldNames
  let space ← Yaml.fieldOr (Yaml.Node.optional? Yaml.Node.text?) none "namespace" fs
  let nameQualifies ← Yaml.fieldOr Yaml.Node.bool? false "useNameAsPrefix" fs
  let profiles ← Yaml.fieldOr (Yaml.Node.list? Yaml.Node.text?) [] "profiles" fs
  let configMaps ← Yaml.fieldOr (Yaml.Node.list? Entry.ofNode?) [] "configMaps" fs
  let secrets ← Yaml.fieldOr (Yaml.Node.list? Entry.ofNode?) [] "secrets" fs
  return ⟨space, nameQualifies, profiles, configMaps, secrets⟩

/-- The rules of entries for a kind of objects, the first of which has an index. -/
def rulesFrom (kind : Kind) (index : Nat) : List Entry → Except Fault (List Rule)
  | [] => .ok []
  | e :: r => do
    let rule ← (e.rule kind).mapError (.entry kind index)
    let rules ← rulesFrom kind (index + 1) r
    return rule :: rules

/-- The rules that a manifest declares, those for config maps first. -/
def rules (m : Manifest) : Except Fault (List Rule) := do
  let cs ← rulesFrom .configMap 0 m.configMaps
  let ss ← rulesFrom .secret 0 m.secrets
  return cs ++ ss

/-- Read a manifest, with the rules that it declares. -/
def read (content : String) : Except Fault (Manifest × List Rule) := do
  let node ← (Yaml.soleNode content.toList).mapError .yaml
  match ofNode? node with
  | none => .error .fields
  | some m => return (m, ← m.rules)

/-- What can be wrong with a manifest in a file. -/
inductive FileFault where
  /-- The file cannot be read. -/
  | unreadable (path : String)
  /-- There is something wrong with what the file holds. -/
  | invalid (path : String) (f : Fault)

/-- The wording of what is wrong with a manifest in a file. -/
def FileFault.message : FileFault → String
  | .unreadable path => "Failed to read sources file: " ++ path
  | .invalid path f => "Invalid sources file: " ++ path ++ ": " ++ f.message

/-- Read a manifest from what a file holds, if it could be read at all. -/
def load (path : String) (content : Option String) :
    Except FileFault (Manifest × List Rule) :=
  match content with
  | none => .error (.unreadable path)
  | some s => (read s).mapError (.invalid path)

end Manifest

end LiveConfig
