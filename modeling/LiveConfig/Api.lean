import LiveConfig.Store

/-!
# The cluster's web interface

How objects are requested from a cluster, what its resources are as objects, and what its refusals
mean. The values of a secret arrive as bytes and are kept in Base64, the way the cluster stores them.
-/

namespace LiveConfig.Api

/-! ### Requests -/

/-- The word for a kind of objects in an address. -/
def collection : Kind → String
  | .configMap => "configmaps"
  | .secret => "secrets"

/-- The address of all objects of a scope. -/
def scopePath (s : Scope) : String :=
  "/api/v1/namespaces/" ++ s.space ++ "/" ++ collection s.kind

/-- The address of an object. -/
def objectPath (k : ObjectKey) : String := scopePath k.scope ++ "/" ++ k.name

/-- Whether a character may stand in the path of an address. -/
def isPathChar (c : Char) : Bool :=
  c == '!' || c == '"' || (0x24 ≤ c.toNat && c.toNat ≤ 0x3b) || c == '=' ||
    (0x40 ≤ c.toNat && c.toNat ≤ 0x5f) || (0x61 ≤ c.toNat && c != '`')

/-- Whether a character may stand in the query of an address. -/
def isQueryChar (c : Char) : Bool :=
  c == '!' || (0x24 ≤ c.toNat && c.toNat ≤ 0x3b) || c == '=' || 0x3f ≤ c.toNat

/-- Whether an address is well formed. What stands behind a hash mark does not matter. -/
def isAddress (s : String) : Bool :=
  let cs := s.toList.takeWhile (· != '#')
  let query := cs.dropWhile (· != '?')
  (cs.takeWhile (· != '?')).all isPathChar && (query.drop 1).all isQueryChar

/-- A request as the cluster sees it: the path, and the labels that are asked for, if any are. -/
structure Request where
  path : String
  selector : Option String
  deriving DecidableEq

/-- The request for an address, if it is well formed. -/
def request? (address : String) (selector : Option String) : Option Request :=
  if isAddress address then
    let path := String.ofList (address.toList.takeWhile (fun c => c != '?' && c != '#'))
    some ⟨path, if address.toList.contains '#' then none else selector⟩
  else none

/-- The request for an object, which must have a name. -/
def getRequest? (k : ObjectKey) : Option Request :=
  if k.name.isEmpty then none else request? (objectPath k) none

/-- The request for all objects of a scope that carry labels. -/
def listRequest? (s : Scope) (labels : Labels) : Option Request :=
  request? (scopePath s) (some labels.selector)

/-- The request for the objects of a scope before it is watched. -/
def watchRequest? (s : Scope) : Option Request := request? (scopePath s) none

/-! ### Resources -/

/-- The description of a resource. -/
structure Metadata where
  name : Option String
  space : Option String
  labels : Option Labels
  version : Option String

namespace Metadata

/-- The key of a resource that was found in a namespace. -/
def key (m : Metadata) (kind : Kind) (space : String) : ObjectKey :=
  ⟨kind, m.space.getD space, m.name.getD ""⟩

/-- The object with some data. -/
def object (m : Metadata) (kind : Kind) (space : String) (data : SortedMap String String) : Object :=
  ⟨m.key kind space, m.labels.getD ∅, data, m.version.getD ""⟩

end Metadata

/-- A resource as the cluster gives it. -/
inductive Resource where
  | configMap (m : Metadata) (data : Option (SortedMap String String))
  | secret (m : Metadata) (data : Option (SortedMap String (List UInt8)))

/-- A resource that was found in a namespace as an object. -/
def Resource.object (space : String) : Resource → Object
  | .configMap m data => m.object .configMap space (data.getD ∅)
  | .secret m data =>
    m.object .secret space ((data.getD ∅).map (fun v => String.ofList (Text.Base64.encode v)))

/-! ### Refusals -/

/-- A refusal of the cluster. -/
structure Refusal where
  code : Nat
  reason : String
  message : String
  deriving DecidableEq

/-- The wording of a refusal. -/
def Refusal.text (r : Refusal) : String :=
  r.message ++ ": " ++ r.reason ++ " (" ++ toString r.code ++ ")"

/-- Whether a refusal says that there is no such object. -/
def Refusal.isAbsence (r : Refusal) : Bool := r.code == 404 && r.reason == "NotFound"

/-- What the cluster answers to a request. -/
inductive Answer (α : Type) where
  | found (a : α)
  | refused (r : Refusal)
  /-- The answer is not understood. -/
  | unreadable (reason : String)

/-- The object that was asked for. -/
def Answer.object (space : String) : Answer Resource → Except Failure (Option Object)
  | .found r => .ok (some (r.object space))
  | .refused r => if r.isAbsence then .ok none else .error (.cluster r.text)
  | .unreadable reason => .error (.cluster reason)

/-- The objects that were asked for. -/
def Answer.objects (space : String) : Answer (List Resource) → Except Failure (List Object)
  | .found rs => .ok (rs.map (Resource.object space))
  | .refused r => .error (.cluster r.text)
  | .unreadable reason => .error (.cluster reason)

/-- Whether a text occurs in another one. -/
def occurs (wanted : List Char) : List Char → Bool
  | [] => wanted.isEmpty
  | c :: r => wanted.isPrefixOf (c :: r) || occurs wanted r

/-- The texts by which a failure is known to be about an expired version. -/
def expiryMarks : List String := ["410", "too old resource version", "Expired", "Gone"]

/-- What broke a watch stream, by the wording of the failure. -/
def classify (message : String) : LinkFault :=
  if expiryMarks.any (fun m => occurs m.toList message.toList) then .expired message
  else .disconnected message

/-! ### Watching -/

/-- What the cluster reports on a watch stream. -/
inductive Notice where
  | added (r : Resource)
  | modified (r : Resource)
  | deleted (r : Resource)
  /-- The stream has come so far. -/
  | bookmark
  | refused (r : Refusal)
  /-- A report that is not understood. -/
  | unreadable (reason : String)

/-- What a report means to a watcher, if it does mean something. -/
def Notice.event? (space : String) : Notice → Option (Except LinkFault Event)
  | .added r => some (.ok (.applied (r.object space)))
  | .modified r => some (.ok (.applied (r.object space)))
  | .deleted r => some (.ok (.deleted (r.object space).key))
  | .bookmark => none
  | .refused r => some (.error (classify r.text))
  | .unreadable reason => some (.error (classify reason))

/-- Reports up to the first failure. -/
def untilFault : List (Except LinkFault Event) → List (Except LinkFault Event)
  | [] => []
  | .ok e :: r => .ok e :: untilFault r
  | .error f :: _ => [.error f]

/-- What a watcher is told of a scope: the objects at first, then what is reported. If the objects
cannot be had that is one failure. -/
def watch (space : String) (initial : Answer (List Resource)) (notices : List Notice) :
    List (Except LinkFault Event) :=
  match initial with
  | .found rs =>
    untilFault (rs.map (fun r => .ok (.applied (r.object space))) ++
      notices.filterMap (Notice.event? space))
  | .refused r => [.error (classify r.text)]
  | .unreadable reason => [.error (classify reason)]

end LiveConfig.Api
