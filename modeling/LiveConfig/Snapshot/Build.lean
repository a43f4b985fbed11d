import LiveConfig.Document
import LiveConfig.Failure
import LiveConfig.Rule
import LiveConfig.Snapshot
import LiveConfig.Text.Base64

/-!
# Building a snapshot

The sources of a snapshot are merged in order, a later property replacing an earlier one of the same
key. Each source contributes its entries in the order of their names; values of secrets are decoded,
embedded documents expanded, and every key is put under the source's qualifier.

A snapshot is built in full or not at all: the first entry that cannot be read fails the build.
-/

namespace LiveConfig

/-- The text of a Base64 value, or the reason why it has none. -/
def decodeSecret (value : String) : Except String String :=
  match Text.Base64.decode value.toList with
  | .error f => .error f.message
  | .ok bytes =>
    match Text.Utf8.decode bytes with
    | .error f => .error f.message
    | .ok cs => .ok (String.ofList cs)

namespace Object

/-- The value of an entry as text. -/
def entryText (o : Object) (entry value : String) : Except Failure String :=
  match o.key.kind with
  | .configMap => .ok value
  | .secret => (decodeSecret value).mapError (.undecodable o.key entry)

/-- The properties that an entry holds: those of its document, or the entry itself. -/
def entryProperties (o : Object) (entry value : String) :
    Except Failure (List (String × String)) := do
  let text ← o.entryText entry value
  match Document.Format.ofName? entry with
  | none => return [(entry, text)]
  | some format =>
    match Document.expand format text with
    | .ok m => return m.entries
    | .error (.properties f) => .error (.malformed o.key entry (some f.message))
    | .error (.yaml _) => .error (.malformed o.key entry none)

/-- The properties of the entries of an object, in the order of the entries. -/
def propertiesOf (o : Object) : List (String × String) → Except Failure (List (String × String))
  | [] => .ok []
  | (entry, value) :: r => do
    let first ← o.entryProperties entry value
    let rest ← o.propertiesOf r
    return first ++ rest

/-- The properties that an object holds. -/
def properties (o : Object) : Except Failure (List (String × String)) :=
  o.propertiesOf o.data.entries

end Object

/-- A key under a qualifier, if there is one. -/
def qualify (qualifier : Option String) (key : String) : String :=
  match qualifier with
  | some q => q ++ "." ++ key
  | none => key

namespace Snapshot

/-- Put the properties of a source over a snapshot. -/
def addLayer (fetch : ObjectKey → Option Object) (s : Snapshot) (l : Layer) :
    Except Failure Snapshot :=
  match fetch l.key with
  | none => .error (.absent l.key.kind l.key.space l.key.name)
  | some o => do
    let ps ← o.properties
    return { properties := s.properties.insertMany (ps.map (fun e => (qualify l.qualifier e.1, e.2)))
             versions := s.versions.insert o.key o.version }

/-- Put the properties of sources over a snapshot, one source after the other. -/
def addLayers (fetch : ObjectKey → Option Object) (s : Snapshot) :
    List Layer → Except Failure Snapshot
  | [] => .ok s
  | l :: r => do
    let s ← s.addLayer fetch l
    s.addLayers fetch r

/-- The snapshot of sources, whose objects are looked up with `fetch`. -/
def build (fetch : ObjectKey → Option Object) (layers : List Layer) : Except Failure Snapshot :=
  addLayers fetch ∅ layers

end Snapshot

end LiveConfig
