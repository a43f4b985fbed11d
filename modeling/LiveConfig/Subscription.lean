import LiveConfig.Store

/-!
# Watch streams of a store

A stream reports the objects of one scope: first those that exist when it is opened, then every
change from that moment on. It reads the feed of the whole store. If it falls too far behind, or the
feed tells it to, it reports that it is broken and then ends.
-/

namespace LiveConfig

/-- So many signals a stream may be behind. -/
def feedLimit : Nat := 256

/-- An open watch stream. -/
structure Subscription where
  scope : Scope
  /-- Objects that existed when the stream was opened and have not been reported yet. -/
  replay : List Object
  /-- How many signals of the feed were read. -/
  position : Nat
  /-- Whether the stream broke off. -/
  closed : Bool
  deriving DecidableEq

/-- What reading a stream gives. -/
inductive Reading where
  | event (e : Event)
  | broken (f : LinkFault)
  /-- Nothing yet. -/
  | pending
  /-- Nothing any more. -/
  | ended
  deriving DecidableEq

/-- Open a stream. There is no namespace without a name. -/
def Store.subscribe (s : Store) (scope : Scope) : Except Failure Subscription × Store :=
  if scope.space.isEmpty then (.error (.cluster "namespace must not be empty"), s)
  else
    (.ok ⟨scope, s.objectsIn scope, s.feed.length, false⟩,
      { s with subscriptions := s.subscriptions + 1 })

namespace Subscription

/-- Read unread signals up to the first that concerns a scope. The number of signals that were read
is returned with it. -/
def scan (scope : Scope) : List Signal → Reading × Nat
  | [] => (.pending, 0)
  | .disconnect :: _ => (.broken (.disconnected "connection dropped"), 1)
  | .event e :: r =>
    if e.key.scope = scope then (.event e, 1)
    else
      let (found, n) := scan scope r
      (found, n + 1)

/-- Read the feed. -/
def readFeed (feed : List Signal) (s : Subscription) : Reading × Subscription :=
  let unread := feed.drop s.position
  if feedLimit < unread.length then
    (.broken (.disconnected ("watch lagged behind by " ++ toString (unread.length - feedLimit) ++
      " events")), { s with closed := true })
  else
    let (found, n) := scan s.scope unread
    let s := { s with position := s.position + n }
    match found with
    | .broken f => (.broken f, { s with closed := true })
    | found => (found, s)

/-- Read a stream. -/
def next (feed : List Signal) (s : Subscription) : Reading × Subscription :=
  if s.closed then (.ended, s)
  else
    match s.replay with
    | o :: r => (.event (.applied o), { s with replay := r })
    | [] => s.readFeed feed

/-- How a sequence of reads stopped. -/
inductive Stop where
  | pending
  | ended
  | limit
  deriving DecidableEq

/-- Read a stream until there is nothing to read, at most so many times. What was read is returned
in order. -/
def drain (feed : List Signal) : Nat → Subscription → List Reading × Stop × Subscription
  | 0, s => ([], .limit, s)
  | n + 1, s =>
    match s.next feed with
    | (.pending, s) => ([], .pending, s)
    | (.ended, s) => ([], .ended, s)
    | (r, s) =>
      let (rs, stop, s) := drain feed n s
      (r :: rs, stop, s)

/-- So many times a stream can be read until there is nothing to read. -/
def readBound (feed : List Signal) (s : Subscription) : Nat := s.replay.length + feed.length + 2

end Subscription

end LiveConfig
