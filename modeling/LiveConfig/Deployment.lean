import LiveConfig.Reloader

/-!
# Deployments

A reloader beside the store that it reads from and the application that it serves, on a common clock
of whole milliseconds. Time passes while the application is waited for, and meanwhile only the
reloader's watch tasks act.
-/

namespace LiveConfig

open Watch (Change)

/-- A snapshot was handed to the application. -/
structure Call where
  moment : Nat
  properties : SortedMap String String

/-- A store, a reloader and an application at a moment. -/
structure Deployment where
  now : Nat
  store : Store
  reloader : Reloader
  /-- How the application replies at present. -/
  reply : Reply
  /-- What the application was handed, in order. -/
  calls : List Call
  tally : Tally

namespace Deployment

/-- What the rules of the reloader resolve to at present. -/
def resolved (d : Deployment) : Except Failure Resolution :=
  resolve d.store.cluster d.reloader.options d.reloader.settings.space d.reloader.rules

/-- Note what an offer led to. -/
def noteOffer (d : Deployment) (o : Offer) : Deployment :=
  { d with calls := d.calls ++ (o.handed.map (fun s => ⟨d.now, s.properties⟩)).toList
           tally := d.tally.addAll o.outcome.counters }

/-- Start a reloader beside a store. -/
def start (settings : Settings) (options : Options) (rules : List Rule) (store : Store)
    (reply : Reply) : Except Failure Deployment := do
  let found := resolve store.cluster options settings.space rules
  let (r, o) ← Reloader.start settings options rules found reply
  let d := noteOffer ⟨0, store, r, reply, [], ∅⟩ o
  return { d with now := o.waited }

/-- Give the watch tasks their turns. -/
def settle (d : Deployment) : Deployment :=
  match d.reloader.watcher with
  | none => d
  | some w =>
    let t := w.settle d.now d.store
    { d with store := t.store, reloader := { d.reloader with watcher := some t.watcher }
             tally := d.tally.addAll t.counters }

/-- Let a number of milliseconds pass while nothing but the watch tasks acts. -/
def pass (d : Deployment) (millis : Nat) : Deployment :=
  match d.reloader.watcher with
  | none => { d with now := d.now + millis }
  | some w =>
    let t := w.pass d.now millis d.store
    { d with now := d.now + millis, store := t.store
             reloader := { d.reloader with watcher := some t.watcher }
             tally := d.tally.addAll t.counters }

/-- Do what an instruction to the store says. -/
def perform (d : Deployment) (s : Store.Step) : Deployment × Store.Answer :=
  let (store, answer) := d.store.perform s
  ({ d with store := store }, answer)

/-- Begin a recomputation: what the rules resolve to, and what offering that leads to. -/
def beginRecompute (d : Deployment) : Deployment × Except Failure Resolution × Offer :=
  let found := d.resolved
  let o := d.reloader.offer found d.reply
  let d := d.noteOffer o
  ({ d with tally := d.tally.addAll Reloader.recomputeCounters }, found, o)

/-- Recompute now. -/
def recompute (d : Deployment) : Deployment × Outcome :=
  let (d, found, o) := d.beginRecompute
  let d := d.pass o.waited
  ({ d with reloader := d.reloader.conclude found o }, o.outcome)

/-- The changes that wait to be collected. -/
def queue (d : Deployment) : List Change :=
  match d.reloader.watcher with
  | some w => w.queue
  | none => []

/-- Leave other changes to be collected. -/
def setQueue (d : Deployment) (cs : List Change) : Deployment :=
  { d with reloader := { d.reloader with
      watcher := d.reloader.watcher.map (fun w => { w with queue := cs }) } }

end Deployment

end LiveConfig
