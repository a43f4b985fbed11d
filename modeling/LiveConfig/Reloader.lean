import LiveConfig.Settings
import LiveConfig.Trigger
import LiveConfig.Watch.Watcher

/-!
# Reloaders

A reloader keeps the configuration of an application up to date. It resolves its rules, builds a
snapshot, and offers that to its trigger; and it watches whatever can change what the rules resolve
to. Each time the rules were resolved the interest is determined anew, and a new watcher takes over
if it is not the same as before.

What the rules resolve to is given to the functions here, so that nothing is assumed of the cluster.
-/

namespace LiveConfig

/-- The state of a reloader. -/
structure Reloader where
  settings : Settings
  options : Options
  rules : List Rule
  trigger : Trigger
  interest : Interest
  watcher : Option Watch.Watcher
  /-- What the gauge shows: the number of current properties. -/
  gauge : Nat
  deriving DecidableEq

namespace Reloader

/-- The part of the interest of a resolution that is about monitored kinds. -/
def interestIn (r : Reloader) (res : Resolution) : Interest :=
  r.settings.monitored (.ofRules r.options r.settings.space r.rules res)

/-- Whether an interest is to be watched: there must be something in it, and recomputations must be
started by events. -/
def shouldWatch (r : Reloader) (i : Interest) : Bool := r.settings.mode == .event && !i.isEmpty

/-- The watcher for an interest, if it is to be watched. -/
def watcherFor (r : Reloader) (i : Interest) : Option Watch.Watcher :=
  if r.shouldWatch i then some (.spawn i r.settings.backoff) else none

/-- Determine the interest anew. The watcher stays if nothing is different. -/
def updateInterest (r : Reloader) (res : Resolution) : Reloader :=
  let i := r.interestIn res
  if i = r.interest ∧ (r.watcher.isSome ∨ ¬ r.shouldWatch i) then r
  else { r with interest := i, watcher := r.watcherFor i }

/-- Show the number of current properties. -/
def publish (r : Reloader) : Reloader :=
  match r.trigger.current with
  | some s => { r with gauge := gaugeValue s.properties.size }
  | none => r

/-- Offer what rules resolved to. -/
def offer (r : Reloader) (resolved : Except Failure Resolution) (reply : Reply) : Offer :=
  r.trigger.begin.offer (resolved.bind Resolution.snapshot) reply

/-- After an offer was dealt with. -/
def conclude (r : Reloader) (resolved : Except Failure Resolution) (o : Offer) : Reloader :=
  let r := { r with trigger := o.trigger }.publish
  match resolved with
  | .ok res => r.updateInterest res
  | .error _ => r

/-- Recompute, given what the rules resolve to and how the application replies. -/
def recompute (r : Reloader) (resolved : Except Failure Resolution) (reply : Reply) :
    Reloader × Offer :=
  let o := r.offer resolved reply
  (r.conclude resolved o, o)

/-- What is counted for a recomputation besides its outcome. -/
def recomputeCounters : List Counter := [.recomputations, .recomputationDuration]

/-- A reloader that has not started. -/
def idle (settings : Settings) (options : Options) (rules : List Rule) : Reloader where
  settings := settings
  options := options
  rules := rules
  trigger := .new settings.refreshTimeout
  interest := ∅
  watcher := none
  gauge := 0

/-- Start a reloader. Unlike later, a failure to resolve or build is final. -/
def start (settings : Settings) (options : Options) (rules : List Rule)
    (resolved : Except Failure Resolution) (reply : Reply) : Except Failure (Reloader × Offer) := do
  let res ← resolved
  let s ← res.snapshot
  let r := idle settings options rules
  let o := r.trigger.begin.offer (.ok s) reply
  return (r.conclude (.ok res) o, o)

end Reloader

end LiveConfig
