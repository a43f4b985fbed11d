import LiveConfig.Proofs.Answers
import LiveConfig.Proofs.TaskSteps
import LiveConfig.Reloader

/-!
# A reloader beside a store

A store, a reloader, its watch tasks and the application all act on their own, in any order. The
store may change between any two requests of one resolution; the application may take its time while
the watch tasks go on; changes may be collected for as long as one likes; and a recomputation may
begin at any moment at which the loop does nothing else.

The run begins with the start of the reloader, which unlike every later recomputation must succeed.

## Main definitions

* `System`, `System.Move`, `System.step` — the states and what can happen in them
* `System.Reached` — the states that a run leads to
* `System.Quiescent` — nothing is left to be done

## Main results

* `System.steps_of_step` — what each move can lead to
* `System.reached_of_run?` — moves that can be made one after the other are a run
-/

namespace LiveConfig

open Watch

/-- What the loop of a reloader is doing. -/
inductive Work where
  /-- It resolves its rules. These stores have answered so far. -/
  | resolving (asked : List Store)
  /-- It waits for the application. -/
  | refreshing (found : Except Failure Resolution) (o : Offer)
  /-- It pauses. This is what the rules resolved to last. -/
  | pausing (found : Except Failure Resolution)
  /-- It collects changes. -/
  | collecting (found : Except Failure Resolution) (batch : List Change)

/-- A store and a reloader. -/
structure System where
  store : Store
  reloader : Reloader
  work : Work

namespace System

/-- What can happen. -/
inductive Move where
  /-- Something is done to the store. -/
  | store (x : Store.Step)
  /-- A watch task takes a step at a moment. -/
  | task (n now : Nat)
  /-- The store answers a request. -/
  | ask
  /-- The rules are resolved, and what they resolved to is offered. -/
  | hand (reply : Reply)
  /-- The application has replied, or is not waited for any longer. -/
  | conclude
  /-- A change is taken out of the queue. -/
  | take
  /-- A recomputation begins. -/
  | begin

/-- What the rules resolve to if the remaining requests are answered by the store as it is now. -/
def resolved (s : System) (asked : List Store) : Except Failure Resolution :=
  resolvedOver (fun n => asked.getD n s.store) s.reloader.options s.reloader.settings.space
    s.reloader.rules

/-- Whether a reloader goes on with what its rules resolved to. While it starts, that must have a
snapshot. -/
def goesOn (r : Reloader) (found : Except Failure Resolution) (reply : Reply) : Bool :=
  r.trigger.current.isSome || (Reloader.start r.settings r.options r.rules found reply).isOk

/-- Put another watcher in place of that of the reloader. -/
def setWatcher (s : System) (w : Watcher) : System :=
  { s with reloader := { s.reloader with watcher := some w } }

/-- Take the first change out of the queue. -/
def takeChange (s : System) : Option (Change × System) :=
  match s.reloader.watcher with
  | none => none
  | some w =>
    match w.queue with
    | [] => none
    | c :: cs => some (c, s.setWatcher { w with queue := cs })

/-- A step of a watch task. -/
def stepTask (s : System) (n now : Nat) : Option System :=
  match s.reloader.watcher with
  | none => none
  | some w =>
    match w.tasks[n]? with
    | none => none
    | some t =>
      let r := t.step w.interest now w.hasRoom s.store
      let w := { w with tasks := w.tasks.set n r.task, queue := w.queue ++ r.sent }
      some ({ s with store := r.store }.setWatcher w)

/-- What a move leads to, where it can be made. -/
def step (s : System) : Move → Option System
  | .store x => some { s with store := (s.store.perform x).1 }
  | .task n now => s.stepTask n now
  | .ask =>
    match s.work with
    | .resolving asked => some { s with work := .resolving (asked ++ [s.store]) }
    | _ => none
  | .hand reply =>
    match s.work with
    | .resolving asked =>
      let found := s.resolved asked
      if goesOn s.reloader found reply then
        some { s with work := .refreshing found (s.reloader.offer found reply) }
      else none
    | _ => none
  | .conclude =>
    match s.work with
    | .refreshing found o =>
      some { s with reloader := s.reloader.conclude found o, work := .pausing found }
    | _ => none
  | .take =>
    match s.work with
    | .pausing found =>
      s.takeChange.map fun p => { p.2 with work := .collecting found [p.1] }
    | .collecting found batch =>
      s.takeChange.map fun p => { p.2 with work := .collecting found (batch ++ [p.1]) }
    | _ => none
  | .begin =>
    match s.work with
    | .pausing _ => some { s with work := .resolving [] }
    | .collecting _ _ => some { s with work := .resolving [] }
    | _ => none

/-- A reloader that begins to start beside a store to which some things were done. -/
def initial (settings : Settings) (options : Options) (rules : List Rule)
    (history : List Store.Step) : System :=
  ⟨.after history, .idle settings options rules, .resolving []⟩

/-- The states that a run leads to in which only some moves are made. -/
inductive Reached (allowed : System → Move → Prop) (s₀ : System) : System → Prop where
  | refl : Reached allowed s₀ s₀
  | move {s t : System} {m : Move} (hs : Reached allowed s₀ s) (hm : allowed s m)
      (ht : s.step m = some t) : Reached allowed s₀ t

theorem Reached.trans {allowed : System → Move → Prop} {s₀ s t : System}
    (hs : Reached allowed s₀ s) (ht : Reached allowed s t) : Reached allowed s₀ t := by
  induction ht with
  | refl => exact hs
  | move _ hm hstep ih => exact .move ih hm hstep

/-- The state that moves lead to, if each can be made and passes a test. -/
def run? (test : System → Move → Bool) : System → List Move → Option System
  | s, [] => some s
  | s, m :: ms => if test s m then (s.step m).bind (run? test · ms) else none

theorem reached_of_run? {allowed : System → Move → Prop} {test : System → Move → Bool}
    (htest : ∀ s m, test s m = true → allowed s m) {s₀ s t : System} {ms : List Move}
    (hs : Reached allowed s₀ s) (ht : s.run? test ms = some t) : Reached allowed s₀ t := by
  induction ms generalizing s with
  | nil =>
    cases ht
    exact hs
  | cons m ms ih =>
    rw [run?] at ht
    split at ht
    · rename_i hm
      obtain ⟨u, hu, ht⟩ := Option.bind_eq_some_iff.mp ht
      exact ih (.move hs (htest s m hm) hu) ht
    · cases ht

/-- The same, for moves that are known to be possible. -/
theorem reached_getD_run? {allowed : System → Move → Prop} {test : System → Move → Bool}
    (htest : ∀ s m, test s m = true → allowed s m) {s₀ : System} {ms : List Move}
    (h : (s₀.run? test ms).isSome = true) : Reached allowed s₀ ((s₀.run? test ms).getD s₀) := by
  obtain ⟨t, ht⟩ := Option.isSome_iff_exists.mp h
  rw [ht]
  exact reached_of_run? htest .refl ht

/-- A task has a stream and has read all that it reports. -/
def Idle (s : Store) (t : Task) : Prop :=
  ∃ sub, t.activity = .reading sub ∧ (sub.next s.feed).1 = .pending

/-- Nothing is left to be done: the loop pauses, the queue is empty, and every watch task has a
stream and has read all that it reports. -/
def Quiescent (s : System) : Prop :=
  (∃ found, s.work = .pausing found) ∧
    ∀ w, s.reloader.watcher = some w → w.queue = [] ∧ ∀ t ∈ w.tasks, Idle s.store t

/-- The stream that a task reads. -/
def reading? (t : Task) : Option Subscription :=
  match t.activity with
  | .reading sub => some sub
  | _ => none

theorem idle_iff {s : Store} {t : Task} :
    Idle s t ↔ (reading? t).any (fun sub => (sub.next s.feed).1 = .pending) = true := by
  cases ha : t.activity <;> simp [Idle, reading?, ha]

instance (s : Store) (t : Task) : Decidable (Idle s t) := decidable_of_iff _ idle_iff.symm

/-- Whether the loop pauses. -/
def Work.isPausing : Work → Bool
  | .pausing _ => true
  | _ => false

theorem quiescent_iff {s : System} : s.Quiescent ↔ Work.isPausing s.work = true ∧
    ∀ w ∈ s.reloader.watcher.toList, w.queue = [] ∧ ∀ t ∈ w.tasks, Idle s.store t := by
  refine and_congr ?_ (forall_congr' fun w => ?_)
  · cases s.work <;> simp [Work.isPausing]
  · rw [Option.mem_toList]

instance (s : System) : Decidable s.Quiescent := decidable_of_iff _ quiescent_iff.symm

/-! ### A sample -/

/-- The key of a config map. -/
def sampleKey : ObjectKey := ⟨.configMap, "default", "app"⟩

/-- A rule that names the config map, which need not exist. -/
def sampleRules : List Rule := [⟨.configMap, .named "app", none, none, none⟩]

/-- Objects that are named need not exist. -/
def sampleOptions : Options := { Options.standard with failFast := false }

/-- What is done to the config map so that it holds one entry. -/
def samplePut (value : String) : Store.Step := .put sampleKey ∅ (.ofList [("a", value)])

/-- A reloader that begins to start beside a store with the config map. -/
def sample : System := initial .standard sampleOptions sampleRules [samplePut "1"]

/-! ### The moves one by one -/

/-- What each move can lead to. -/
inductive Steps (s : System) : Move → System → Prop where
  | store (x : Store.Step) : Steps s (.store x) { s with store := (s.store.perform x).1 }
  | task {n now : Nat} {w : Watcher} {t t' : Task} {store : Store} {sent : List Change}
      (hw : s.reloader.watcher = some w) (ht : w.tasks[n]? = some t)
      (hdoes : t.Does w.interest s.store t' store sent) :
      Steps s (.task n now) ({ s with store := store }.setWatcher
        { w with tasks := w.tasks.set n t', queue := w.queue ++ sent })
  | ask {asked : List Store} (hwork : s.work = .resolving asked) :
      Steps s .ask { s with work := .resolving (asked ++ [s.store]) }
  | hand {asked : List Store} {reply : Reply} (hwork : s.work = .resolving asked)
      (hgo : goesOn s.reloader (s.resolved asked) reply = true) :
      Steps s (.hand reply) { s with
        work := .refreshing (s.resolved asked) (s.reloader.offer (s.resolved asked) reply) }
  | conclude {found : Except Failure Resolution} {o : Offer}
      (hwork : s.work = .refreshing found o) :
      Steps s .conclude
        { s with reloader := s.reloader.conclude found o, work := .pausing found }
  | take {found : Except Failure Resolution} {batch : List Change} {w : Watcher} {c : Change}
      {cs : List Change}
      (hwork : s.work = .pausing found ∧ batch = [] ∨ s.work = .collecting found batch)
      (hw : s.reloader.watcher = some w) (hqueue : w.queue = c :: cs) :
      Steps s .take { s.setWatcher { w with queue := cs } with
        work := .collecting found (batch ++ [c]) }
  | begin {found : Except Failure Resolution}
      (hwork : s.work = .pausing found ∨ ∃ batch, s.work = .collecting found batch) :
      Steps s .begin { s with work := .resolving [] }

theorem takeChange_eq_some {s t : System} {c : Change} (h : s.takeChange = some (c, t)) :
    ∃ w cs, s.reloader.watcher = some w ∧ w.queue = c :: cs ∧
      t = s.setWatcher { w with queue := cs } := by
  unfold takeChange at h
  split at h
  · cases h
  · rename_i w hw
    split at h
    · cases h
    · rename_i c' cs hqueue
      cases h
      exact ⟨w, cs, hw, hqueue, rfl⟩

theorem steps_of_step {s t : System} {m : Move} (h : s.step m = some t) : Steps s m t := by
  cases m with
  | store x => cases h; exact .store x
  | task n now =>
    simp only [step, stepTask] at h
    split at h
    · cases h
    · rename_i w hw
      split at h
      · cases h
      · rename_i u hu
        cases h
        exact .task hw hu (Task.does_step w.interest now w.hasRoom s.store u)
  | ask =>
    simp only [step] at h
    split at h
    · rename_i asked hwork
      cases h
      exact .ask hwork
    · cases h
  | hand reply =>
    simp only [step] at h
    split at h
    · rename_i asked hwork
      split at h
      · rename_i hgo
        cases h
        exact .hand hwork hgo
      · cases h
    · cases h
  | conclude =>
    simp only [step] at h
    split at h
    · rename_i found o hwork
      cases h
      exact .conclude hwork
    · cases h
  | take =>
    simp only [step] at h
    split at h
    · rename_i found hwork
      obtain ⟨⟨c, u⟩, hu, rfl⟩ := Option.map_eq_some_iff.mp h
      obtain ⟨w, cs, hw, hqueue, rfl⟩ := takeChange_eq_some hu
      exact .take (Or.inl ⟨hwork, rfl⟩) hw hqueue
    · rename_i found batch hwork
      obtain ⟨⟨c, u⟩, hu, rfl⟩ := Option.map_eq_some_iff.mp h
      obtain ⟨w, cs, hw, hqueue, rfl⟩ := takeChange_eq_some hu
      exact .take (Or.inr hwork) hw hqueue
    · cases h
  | begin =>
    simp only [step] at h
    split at h
    · rename_i found hwork
      cases h
      exact .begin (Or.inl hwork)
    · rename_i found batch hwork
      cases h
      exact .begin (Or.inr ⟨batch, hwork⟩)
    · cases h

end System

end LiveConfig
