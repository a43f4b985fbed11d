import LiveConfig.Backoff
import LiveConfig.Metrics
import LiveConfig.Watch.Memory

/-!
# Following a scope

What remains of watching a scope when streams come and go: the memory of what was forwarded, and the
delay before the next stream is opened. Every event that is received brings the delay back to its
start, whether or not it is passed on.
-/

namespace LiveConfig.Watch

/-- The state of watching a scope, apart from the stream. -/
structure Follower where
  scope : Scope
  backoff : Backoff
  memory : Memory
  deriving DecidableEq

/-- The fault of a stream that ended without any. -/
def streamEnded : LinkFault := .disconnected "watch stream ended"

/-- The fault of a stream that could not be opened. -/
def notOpened (f : Failure) : LinkFault := .disconnected f.message

namespace Follower

/-- Nothing has happened in a scope yet. -/
def new (scope : Scope) (backoff : Backoff) : Follower := ⟨scope, backoff, ∅⟩

/-- Take in an event. -/
def receive (i : Interest) (f : Follower) (e : Event) : Verdict × Follower :=
  let (v, m) := f.memory.observe i e
  (v, { f with backoff := f.backoff.reset, memory := m })

/-- What is counted for an event. -/
def receiveCounters (f : Follower) (v : Verdict) : List Counter :=
  .watchEvents f.scope.kind.text ::
    match v with
    | .repeated => [.watchEventsSuppressed]
    | _ => []

/-- After a stream broke: the delay before the next one is opened. -/
def lose (f : Follower) (fault : LinkFault) : Nat × Follower :=
  (f.backoff.delayAfter fault, { f with backoff := f.backoff.advance })

/-- What is counted for a stream that broke. -/
def loseCounters (f : Follower) : List Counter := [.watchRestarts f.scope.kind.text]

end Follower

end LiveConfig.Watch
