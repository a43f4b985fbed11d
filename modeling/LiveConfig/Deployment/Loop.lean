import LiveConfig.Deployment

/-!
# The loop of a reloader

Between recomputations the loop pauses. If recomputations are started by events, the first change
that comes starts a batch, all others up to a deadline are added to it, and one recomputation follows
the whole batch. Otherwise recomputations come at moments one period apart; moments that have passed
while the loop was busy are left out.

The loop can be stopped while it pauses, and at no other time.
-/

namespace LiveConfig

open Watch (Change)

/-- What the loop waits for between recomputations. -/
inductive Pause where
  /-- A change. -/
  | change
  /-- A moment in a series of moments one period apart. -/
  | tick (moment : Nat)
  deriving DecidableEq

/-- What the loop is doing. -/
inductive Stage where
  | waiting (p : Pause)
  /-- It collects the changes up to a deadline. -/
  | collecting (deadline : Nat) (batch : List Change)
  /-- It waits until an offer is dealt with, after which it pauses. -/
  | refreshing (moment : Nat) (found : Except Failure Resolution) (o : Offer) (next : Pause)

/-- A step of the loop. -/
inductive Advance where
  /-- There is nothing to do now. -/
  | rest
  | go (d : Deployment) (s : Stage)
  /-- The loop is over. -/
  | stop

namespace Stage

/-- So many milliseconds a tick may be late without being moved. -/
def tolerance : Nat := 5

/-- The tick after one that came at some moment. Ticks that have been missed are left out. -/
def nextTick (period now tick : Nat) : Nat :=
  if tick + tolerance < now then now + period - (now - tick) % period else tick + period

/-- The milliseconds between ticks, of which there is at least one. -/
def period (s : Span) : Nat := max 1 s.millis

/-- The stage in which the loop begins. The first tick is the one that has just passed. -/
def first (now : Nat) : Mode → Stage
  | .event => .waiting .change
  | .polling p => .waiting (.tick (now + period p))

/-- Begin a recomputation and then pause. -/
def recompute (d : Deployment) (next : Pause) : Advance :=
  let (d, found, o) := d.beginRecompute
  .go d (.refreshing (d.now + o.waited) found o next)

/-- One step of the loop. It stops only while it pauses. -/
def advance (d : Deployment) (stopping : Bool) : Stage → Advance
  | .waiting .change =>
    if stopping then .stop
    else
      match d.queue with
      | c :: r =>
        .go (d.setQueue r) (.collecting (d.now + d.reloader.settings.debounce.ceilMillis) [c])
      | [] => .rest
  | .waiting (.tick moment) =>
    if stopping then .stop
    else if moment ≤ d.now then
      match d.reloader.settings.mode with
      | .polling p => recompute d (.tick (nextTick (period p) d.now moment))
      | .event => .rest
    else .rest
  | .collecting deadline batch =>
    match d.queue with
    | [] => if deadline ≤ d.now then recompute d .change else .rest
    | cs => .go (d.setQueue []) (.collecting deadline (batch ++ cs))
  | .refreshing moment found o next =>
    if moment ≤ d.now then
      .go { d with reloader := d.reloader.conclude found o } (.waiting next)
    else .rest

/-- The moment that the loop waits for. -/
def moment? : Stage → Option Nat
  | .waiting .change => none
  | .waiting (.tick m) => some m
  | .collecting m _ => some m
  | .refreshing m _ _ _ => some m

end Stage

end LiveConfig
