import LiveConfig.Deployment.Loop

/-!
# Runs

While a reloader's loop runs, a schedule changes the store and the way in which the application
replies; when the schedule is over the loop is asked to stop.

The parts take turns. At any moment the loop comes first, then the schedule, then the watch tasks;
when none of them has anything to do the clock moves on to the next moment for which one of them
waits.
-/

namespace LiveConfig

open Watch (Watcher)

/-- An entry of a schedule. -/
inductive Action where
  | store (s : Store.Step)
  /-- From now on the application replies like this. -/
  | reply (r : Reply)
  /-- Nothing happens for so many milliseconds. -/
  | sleep (millis : Nat)

/-- A loop beside a schedule. -/
structure Run where
  deployment : Deployment
  stage : Stage
  schedule : List Action
  /-- When the schedule goes on. -/
  wake : Nat
  /-- Whether the watch tasks had their turns at this moment. -/
  settled : Bool

namespace Run

/-- Go on with a schedule up to where it sleeps. -/
def follow (d : Deployment) : List Action → Deployment × List Action × Nat
  | [] => (d, [], d.now)
  | .store s :: r => follow (d.perform s).1 r
  | .reply x :: r => follow { d with reply := x } r
  | .sleep ms :: r => if ms = 0 then follow d r else (d, r, d.now + ms)

/-- Whether the schedule is over. -/
def isOver (r : Run) : Bool := r.schedule.isEmpty && decide (r.wake ≤ r.deployment.now)

/-- The next moment for which any part waits. -/
def moment? (r : Run) : Option Nat :=
  let script := if r.deployment.now < r.wake then some r.wake else none
  let tasks := r.deployment.reloader.watcher.bind Watcher.moment?
  Watcher.earlier? (Watcher.earlier? r.stage.moment? script) tasks

/-- One thing happens, in the order of precedence; nothing does if the loop is over. -/
def step (r : Run) : Option Run :=
  match r.stage.advance r.deployment r.isOver with
  | .stop => none
  | .go d s => some { r with deployment := d, stage := s, settled := false }
  | .rest =>
    if r.wake ≤ r.deployment.now ∧ r.schedule ≠ [] then
      let (d, rest, wake) := follow r.deployment r.schedule
      some { r with deployment := d, schedule := rest, wake := wake, settled := false }
    else if !r.settled then
      some { r with deployment := r.deployment.settle, settled := true }
    else
      match r.moment? with
      | some m => some { r with deployment := { r.deployment with now := m }, settled := false }
      | none => none

/-- At most so many things happen, until the loop is over. -/
def steps : Nat → Run → Run
  | 0, r => r
  | n + 1, r =>
    match r.step with
    | some r => steps n r
    | none => r

/-- For how many milliseconds a schedule sleeps. -/
def sleeps : List Action → Nat
  | [] => 0
  | .sleep ms :: r => ms + sleeps r
  | _ :: r => sleeps r

/-- A bound on what can happen: time passes while the schedule sleeps, and after that for one batch
and one recomputation at most, and only a few things happen at each moment. -/
def bound (d : Deployment) (schedule : List Action) : Nat :=
  let s := d.reloader.settings
  16 * (sleeps schedule + s.debounce.ceilMillis + s.refreshTimeout.ceilMillis + 4)

end Run

/-- Run the reloader beside a schedule. Watching ends with the run. -/
def Deployment.run (d : Deployment) (schedule : List Action) : Deployment :=
  let r : Run := ⟨d, .first d.now d.reloader.settings.mode, schedule, d.now, false⟩
  let d := (r.steps (Run.bound d schedule)).deployment
  { d with reloader := { d.reloader with watcher := none } }

end LiveConfig
