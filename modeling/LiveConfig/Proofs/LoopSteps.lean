import LiveConfig.Deployment.Loop

/-!
# Steps of the loop

What the loop of a reloader can do in one step is listed once (`Stage.Goes`). It takes a change or
all changes out of the queue, begins a recomputation, or concludes one.

## Main definitions

* `Stage.Goes` — what a step of the loop can do
* `Reloader.window` — for how long changes are collected

## Main results

* `Stage.goes_of_advance` — every step of the loop is one of the list
-/

namespace LiveConfig

open Watch (Change)

/-! ### The queue -/

namespace Deployment

variable {d : Deployment}

theorem setQueue_self (hqueue : d.queue = []) : d.setQueue [] = d := by
  obtain ⟨now, store, ⟨settings, options, rules, trigger, interest, watcher, gauge⟩, reply, calls,
    tally⟩ := d
  cases watcher with
  | none => rfl
  | some w =>
    obtain ⟨i, ts, cs⟩ := w
    obtain rfl : cs = [] := hqueue
    rfl

theorem setQueue_setQueue (d : Deployment) (cs cs' : List Change) :
    (d.setQueue cs).setQueue cs' = d.setQueue cs' := by
  simp only [setQueue, Option.map_map]
  rfl

theorem queue_setQueue (hqueue : d.queue ≠ []) (cs : List Change) : (d.setQueue cs).queue = cs := by
  rw [queue] at hqueue
  split at hqueue
  · rename_i w hw
    simp only [queue, setQueue, hw, Option.map_some]
  · exact absurd rfl hqueue

end Deployment

/-! ### Steps of the loop -/

/-- For how many milliseconds changes are collected. A window that is not a whole number of
milliseconds long ends with the millisecond in which it ends. -/
def Reloader.window (r : Reloader) : Nat := r.settings.debounce.ceilMillis

/-- The stage of the loop after a recomputation has begun. -/
def Deployment.refreshing (d : Deployment) (next : Pause) : Stage :=
  let o := d.reloader.offer d.resolved d.reply
  .refreshing (d.now + o.waited) d.resolved o next

namespace Stage

/-- What a step of the loop can do. -/
inductive Goes (d : Deployment) : Stage → Deployment → Stage → Prop where
  /-- A change starts a batch. -/
  | first {c : Change} {cs : List Change} (hqueue : d.queue = c :: cs) :
      Goes d (.waiting .change) (d.setQueue cs) (.collecting (d.now + d.reloader.window) [c])
  /-- Changes are added to a batch. -/
  | more {deadline : Nat} {batch : List Change} (hqueue : d.queue ≠ []) :
      Goes d (.collecting deadline batch) (d.setQueue [])
        (.collecting deadline (batch ++ d.queue))
  /-- The window is over, and no change waits. -/
  | due {deadline : Nat} {batch : List Change} (hqueue : d.queue = []) (hdue : deadline ≤ d.now) :
      Goes d (.collecting deadline batch) d.beginRecompute.1 (d.refreshing .change)
  /-- A tick has come. -/
  | tick {moment next : Nat} (hdue : moment ≤ d.now) :
      Goes d (.waiting (.tick moment)) d.beginRecompute.1 (d.refreshing (.tick next))
  /-- The application is not waited for any longer. -/
  | concludes {moment : Nat} {found : Except Failure Resolution} {o : Offer} {next : Pause}
      (hdue : moment ≤ d.now) :
      Goes d (.refreshing moment found o next)
        { d with reloader := d.reloader.conclude found o } (.waiting next)

/-- **Every step of the loop is one of these.** -/
theorem goes_of_advance {d d' : Deployment} {g g' : Stage} {stopping : Bool}
    (h : g.advance d stopping = .go d' g') : g.Goes d d' g' := by
  cases g with
  | waiting p =>
    cases p with
    | change =>
      rw [advance] at h
      split at h
      · cases h
      · split at h
        · rename_i c cs hqueue
          cases h
          exact .first hqueue
        · cases h
    | tick moment =>
      rw [advance] at h
      split at h
      · cases h
      · split at h
        · rename_i hdue
          split at h
          · cases h
            exact .tick hdue
          · cases h
        · cases h
  | collecting deadline batch =>
    rw [advance] at h
    split at h
    · rename_i hqueue
      split at h
      · rename_i hdue
        cases h
        exact .due hqueue hdue
      · cases h
    · rename_i hqueue
      cases h
      exact .more hqueue
  | refreshing moment found o next =>
    rw [advance] at h
    split at h
    · rename_i hdue
      cases h
      exact .concludes hdue
    · cases h

end Stage

end LiveConfig
