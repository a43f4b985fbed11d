import LiveConfig.Subscription
import LiveConfig.Watch.Follower

/-!
# Watch tasks

A task watches one scope of a store. It opens a stream, forwards the changes of concern that it
reads from it, and opens the next stream some time after one broke. Changes are put into a queue, in
which there need not be room.

What a task does is a sequence of steps, each of which either leads on or leaves it waiting: for an
event, for room in the queue, or for a moment in time. Moments are milliseconds of a common clock.
-/

namespace LiveConfig.Watch

/-- What a task is about to do. -/
inductive Activity where
  /-- Open a stream. -/
  | opening
  /-- Read a stream. -/
  | reading (s : Subscription)
  /-- Put a change into the queue and then read on. -/
  | sending (c : Change) (s : Subscription)
  /-- Wait for a moment and then open a stream. -/
  | waiting (moment : Nat)
  deriving DecidableEq

/-- A task that watches a scope. -/
structure Task where
  follower : Follower
  activity : Activity
  deriving DecidableEq

/-- What one step of a task leads to. -/
structure Stride where
  task : Task
  store : Store
  /-- What is put into the queue. -/
  sent : List Change
  counters : List Counter
  /-- Whether the task has to wait now. -/
  waits : Bool

namespace Task

/-- A task that has not begun. -/
def new (scope : Scope) (b : Backoff) : Task := ⟨.new scope b, .opening⟩

/-- After a stream broke or could not be opened. -/
def lose (now : Nat) (store : Store) (t : Task) (fault : LinkFault) : Stride :=
  let (delay, f) := t.follower.lose fault
  let activity := if delay = 0 then .opening else .waiting (now + delay)
  ⟨⟨f, activity⟩, store, [], f.loseCounters, false⟩

/-- After an event was read. -/
def receive (i : Interest) (store : Store) (t : Task) (s : Subscription) (e : Event) : Stride :=
  let (v, f) := t.follower.receive i e
  let activity := match v with
    | .forward c => .sending c s
    | _ => .reading s
  ⟨⟨f, activity⟩, store, [], f.receiveCounters v, false⟩

/-- One step of a task at a moment. -/
def step (i : Interest) (now : Nat) (room : Bool) (store : Store) (t : Task) : Stride :=
  match t.activity with
  | .opening =>
    match store.subscribe t.follower.scope with
    | (.ok s, store) => ⟨{ t with activity := .reading s }, store, [], [], false⟩
    | (.error f, store) => t.lose now store (notOpened f)
  | .reading s =>
    match s.next store.feed with
    | (.event e, s) => t.receive i store s e
    | (.broken f, _) => t.lose now store f
    | (.ended, _) => t.lose now store streamEnded
    | (.pending, s) => ⟨{ t with activity := .reading s }, store, [], [], true⟩
  | .sending c s =>
    if room then ⟨{ t with activity := .reading s }, store, [c], [], false⟩
    else ⟨t, store, [], [], true⟩
  | .waiting moment =>
    if moment ≤ now then ⟨{ t with activity := .opening }, store, [], [], false⟩
    else ⟨t, store, [], [], true⟩

/-- The moment that a task waits for. -/
def moment? (t : Task) : Option Nat :=
  match t.activity with
  | .waiting m => some m
  | _ => none

end Task

end LiveConfig.Watch
