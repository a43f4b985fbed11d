import LiveConfig.Watch.Task

/-!
# Watchers

A watcher watches the scopes of an interest, with one task for each, and puts the changes of concern
into one queue.

Tasks act when they are given a turn. A turn of a task lasts until the task has to wait. As long as
no time passes and the store does not change, one turn for each task is enough.
-/

namespace LiveConfig.Watch

/-- So many changes fit into the queue. -/
def queueLimit : Nat := 1024

/-- The tasks of an interest and the queue of changes. -/
structure Watcher where
  interest : Interest
  /-- The tasks in the order of their turns. -/
  tasks : List Task
  queue : List Change
  deriving DecidableEq

/-- The outcome of turns: a watcher, a store, and what was counted. -/
structure Turn where
  watcher : Watcher
  store : Store
  counters : List Counter

namespace Watcher

/-- A watcher none of whose tasks has begun. -/
def spawn (i : Interest) (b : Backoff) : Watcher := ⟨i, i.scopes.map (Task.new · b), []⟩

/-- Whether there is room in the queue. -/
def hasRoom (w : Watcher) : Bool := decide (w.queue.length < queueLimit)

/-- The turn of a task, at most so many steps long. -/
def runTask (now : Nat) : Nat → Task → Watcher → Store → List Counter → Task × Turn
  | 0, t, w, store, counted => (t, ⟨w, store, counted⟩)
  | n + 1, t, w, store, counted =>
    let r := t.step w.interest now w.hasRoom store
    let w := { w with queue := w.queue ++ r.sent }
    let counted := counted ++ r.counters
    if r.waits then (r.task, ⟨w, r.store, counted⟩)
    else runTask now n r.task w r.store counted

/-- So many steps a turn can have: opening a stream, reading and forwarding all that it can report,
and losing it. -/
def stepBound (store : Store) : Nat := 2 * (store.objects.size + store.feed.length) + 8

/-- The turns of some tasks, one after the other, behind those that had theirs. -/
def runTasks (now : Nat) : List Task → Watcher → Store → List Counter → Turn
  | [], w, store, counted => ⟨w, store, counted⟩
  | t :: rest, w, store, counted =>
    let (t, r) := runTask now (stepBound store) t w store counted
    runTasks now rest { r.watcher with tasks := r.watcher.tasks ++ [t] } r.store r.counters

/-- Whether a task has to act because a moment has come. -/
def isDue (now : Nat) (t : Task) : Bool :=
  match t.moment? with
  | some m => decide (m ≤ now)
  | none => false

/-- Give every task its turn. Tasks whose moment has come act after the others. -/
def settle (now : Nat) (store : Store) (w : Watcher) : Turn :=
  let order := w.tasks.filter (!isDue now ·) ++ w.tasks.filter (isDue now)
  runTasks now order { w with tasks := [] } store []

/-- The smaller of two moments, either of which may be missing. -/
def earlier? : Option Nat → Option Nat → Option Nat
  | none, b => b
  | a, none => a
  | some a, some b => some (min a b)

/-- The first moment that a task waits for. -/
def moment? (w : Watcher) : Option Nat := (w.tasks.map Task.moment?).foldl earlier? none

/-- Let time pass until just before a horizon, and give tasks their turns whenever one of their
moments comes. The first number bounds how often. -/
def elapse (horizon : Nat) : Nat → Nat → Watcher → Store → List Counter → Turn
  | 0, _, w, store, counted => ⟨w, store, counted⟩
  | n + 1, now, w, store, counted =>
    let r := w.settle now store
    let counted := counted ++ r.counters
    match r.watcher.moment? with
    | some m =>
      if m < horizon then elapse horizon n m r.watcher r.store counted
      else ⟨r.watcher, r.store, counted⟩
    | none => ⟨r.watcher, r.store, counted⟩

/-- Let a number of milliseconds pass. -/
def pass (now millis : Nat) (w : Watcher) (store : Store) : Turn :=
  if millis = 0 then ⟨w, store, []⟩ else elapse (now + millis) (millis + 1) now w store []

/-- Take every change out of the queue. -/
def takeAll (w : Watcher) : List Change × Watcher := (w.queue, { w with queue := [] })

end Watcher

end LiveConfig.Watch
