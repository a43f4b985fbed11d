import LiveConfig.Deployment.Run
import LiveConfig.Proofs.LoopSteps
import LiveConfig.Proofs.Provenance
import Mathlib.Logic.Relation

/-!
# Runs of the loop

The loop of a reloader that recomputes when there are changes. Between any two of its steps other
things happen, as often and in whatever order one likes, and time passes. How long a recomputation
takes is left open, and so is when the loop finds out that the window of a batch is over. While it
collects changes it is not busy, so that only its timer can be late: by no more than its lag, if it
has one (`some 0` for a timer that is never late), or by any time at all (`none`).

What the loop does is written down: the changes that it takes out of the queue, and the
recomputations that it begins, in order and with their moments.

What the loop reads from is left open too, as long as the clock and the terms of the reloader are
left alone (`Silent`). Of a reloader that reads from a store more can be said (`Beside`).

## Main definitions

* `LoopRun` — a deployment, the stage of the loop, and what the loop did
* `LoopRun.Step`, `LoopRun.Reached` — what can happen, and where it leads
* `Beside` — what happens beside the loop of a reloader that reads from a store
* `Deployment.Prepared` — in what state a loop can begin

## Main results

* `Stage.Goes.onward` — a step of the loop leaves changes traced
* `LoopRun.reached_getD_moves?` — what can be made to happen is a run
* `LoopRun.exists_reached_steps` — a run beside a schedule is a run of the loop
-/

namespace LiveConfig

open Watch

/-! ### What the loop does -/

/-- A change was taken out of the queue. -/
structure Receipt where
  moment : Nat
  change : Change
  /-- The store at that moment. -/
  store : Store

/-- A recomputation began. -/
structure Onset where
  moment : Nat
  /-- What the rules resolved to. -/
  found : Except Failure Resolution
  /-- The store at that moment. -/
  store : Store
  /-- The changes that were left in the queue. -/
  left : List Change

/-- Something that the loop did. -/
inductive Note where
  | received (x : Receipt)
  | began (y : Onset)

/-- When it was done. -/
def Note.moment : Note → Nat
  | .received x => x.moment
  | .began y => y.moment

/-- The changes that were taken off the front of the queue. -/
def Deployment.drawn (d d' : Deployment) : List Change :=
  d.queue.take (d.queue.length - d'.queue.length)

/-- The changes that a step of the loop receives. The end of a recomputation may do away with the
queue, but then nothing is received. -/
def Stage.received (g : Stage) (d d' : Deployment) : List Change :=
  match g with
  | .waiting _ => d.drawn d'
  | .collecting _ _ => d.drawn d'
  | .refreshing _ _ _ _ => []

/-- The recomputation that a step of the loop begins. -/
def Stage.began (g' : Stage) (d : Deployment) : List Onset :=
  match g' with
  | .waiting _ => []
  | .collecting _ _ => []
  | .refreshing _ found _ _ => [⟨d.now, found, d.store, d.queue⟩]

/-- What a step of the loop does. -/
def Stage.noted (g g' : Stage) (d d' : Deployment) : List Note :=
  (g.received d d').map (fun c => .received ⟨d.now, c, d.store⟩) ++ (g'.began d).map .began

namespace Stage

variable {d : Deployment} {g : Stage}

theorem received_subset (g : Stage) (d d' : Deployment) : g.received d d' ⊆ d.queue := by
  cases g with
  | waiting p => exact List.take_subset _ _
  | collecting deadline batch => exact List.take_subset _ _
  | refreshing moment found o next => exact List.nil_subset _

theorem drawn_setQueue {cs cs' : List Change} (hqueue : d.queue = cs ++ cs') (hcs : cs ≠ []) :
    d.drawn (d.setQueue cs') = cs := by
  have hne : d.queue ≠ [] := by
    rw [hqueue]
    exact List.append_ne_nil_of_left_ne_nil hcs cs'
  rw [Deployment.drawn, Deployment.queue_setQueue hne, hqueue, List.length_append,
    Nat.add_sub_cancel, List.take_left]

theorem drawn_self {d' : Deployment} (hqueue : d'.queue = d.queue) : d.drawn d' = [] := by
  rw [Deployment.drawn, hqueue, Nat.sub_self, List.take_zero]

theorem noted_first {c : Change} {cs : List Change} (hqueue : d.queue = c :: cs) :
    noted (.waiting .change) (.collecting (d.now + d.reloader.window) [c]) d (d.setQueue cs) =
      [.received ⟨d.now, c, d.store⟩] := by
  have hdrawn : d.drawn (d.setQueue cs) = [c] := drawn_setQueue hqueue (List.cons_ne_nil c [])
  simp [noted, received, began, hdrawn]

theorem noted_more {deadline : Nat} {batch : List Change} (hqueue : d.queue ≠ []) :
    noted (.collecting deadline batch) (.collecting deadline (batch ++ d.queue)) d
      (d.setQueue []) = d.queue.map fun c => .received ⟨d.now, c, d.store⟩ := by
  have hdrawn : d.drawn (d.setQueue []) = d.queue :=
    drawn_setQueue (List.append_nil _).symm hqueue
  simp [noted, received, began, hdrawn]

theorem noted_begin (hg : g.received d d.beginRecompute.1 = d.drawn d.beginRecompute.1)
    (next : Pause) :
    noted g (d.refreshing next) d d.beginRecompute.1 =
      [.began ⟨d.now, d.resolved, d.store, d.queue⟩] := by
  have hdrawn : d.drawn d.beginRecompute.1 = [] := drawn_self rfl
  rw [noted, hg, hdrawn]
  rfl

end Stage

/-- A step of the loop leaves changes traced. -/
theorem Stage.Goes.onward {d d' : Deployment} {g g' : Stage} (h : g.Goes d d' g') :
    d.Onward d' := by
  cases h with
  | first hqueue =>
    refine Deployment.onward_setQueue fun c hc => ?_
    rw [hqueue]
    exact List.mem_cons_of_mem _ hc
  | more hqueue => exact Deployment.onward_setQueue (List.nil_subset _)
  | due hqueue hdue => exact d.onward_beginRecompute
  | tick hdue => exact d.onward_beginRecompute
  | concludes hdue => exact d.onward_conclude _ _

/-- A run of the loop: a deployment, the stage of the loop, and what it did so far. -/
structure LoopRun where
  deployment : Deployment
  stage : Stage
  notes : List Note

/-! ### What happens beside the loop -/

/-- Something that happens beside a loop. -/
inductive Deed where
  /-- Something is done to the store. -/
  | store (x : Store.Step)
  /-- From now on the application replies like this. -/
  | reply (x : Reply)
  /-- A watch task takes a step. -/
  | task (n : Nat)
  /-- All watch tasks have their turns. -/
  | settle

namespace Deployment

/-- A step of a watch task. -/
def stepTask (d : Deployment) (n : Nat) : Deployment :=
  match d.reloader.watcher with
  | none => d
  | some w =>
    match w.tasks[n]? with
    | none => d
    | some t =>
      let x := t.step w.interest d.now w.hasRoom d.store
      let w := { w with tasks := w.tasks.set n x.task, queue := w.queue ++ x.sent }
      { d with store := x.store, reloader := { d.reloader with watcher := some w }
               tally := d.tally.addAll x.counters }

/-- Do something beside the loop. -/
def act (d : Deployment) : Deed → Deployment
  | .store x => (d.perform x).1
  | .reply x => { d with reply := x }
  | .task n => d.stepTask n
  | .settle => d.settle

theorem onward_stepTask (d : Deployment) (n : Nat) : d.Onward (d.stepTask n) := by
  unfold stepTask
  split
  · exact .refl d
  · rename_i w hw
    split
    · exact .refl d
    · rename_i t ht
      refine onward_of_steps hw rfl fun P hP h => ?_
      obtain ⟨hn, hget⟩ := List.getElem?_eq_some_iff.mp ht
      have hfront : w.tasks.Perm (t :: w.tasks.eraseIdx n) := by
        rw [← hget]
        exact (List.getElem_cons_eraseIdx_perm hn).symm
      have hback := (List.set_perm_cons_eraseIdx hn
        (t.step w.interest d.now w.hasRoom d.store).task).symm
      exact hP.perm hback (hP.step (w := w) d.now (hP.perm hfront h))

theorem onward_act (d : Deployment) (a : Deed) : d.Onward (d.act a) := by
  cases a with
  | store x => exact d.onward_perform x
  | reply x => exact onward_of_eq rfl rfl
  | task n => exact d.onward_stepTask n
  | settle => exact d.onward_settle

theorem now_act (d : Deployment) (a : Deed) : (d.act a).now = d.now := by
  cases a with
  | store x => rfl
  | reply x => rfl
  | task n =>
    change (d.stepTask n).now = d.now
    unfold stepTask
    split
    · rfl
    · split <;> rfl
  | settle =>
    change d.settle.now = d.now
    unfold settle
    split <;> rfl

end Deployment

/-- What happens beside the loop of a reloader that reads from a store. -/
def Beside (d d' : Deployment) : Prop := ∃ a, d' = d.act a

/-- The clock stands still, and the reloader goes by the same terms. Nothing else is asked of what
happens beside a loop, whatever it reads from. -/
structure Silent (d d' : Deployment) : Prop where
  now : d'.now = d.now
  terms : d'.reloader.terms = d.reloader.terms

theorem Beside.onward {d d' : Deployment} (h : Beside d d') : d.Onward d' := by
  obtain ⟨a, rfl⟩ := h
  exact d.onward_act a

theorem Beside.silent {d d' : Deployment} (h : Beside d d') : Silent d d' := by
  refine ⟨?_, h.onward.terms⟩
  obtain ⟨a, rfl⟩ := h
  exact d.now_act a

/-! ### Runs -/

namespace LoopRun

/-- A loop that begins. -/
def begin (d : Deployment) : LoopRun := ⟨d, .waiting .change, []⟩

/-- A step of the loop that leads from one deployment and stage to another. -/
def after (r : LoopRun) (d' : Deployment) (g' : Stage) : LoopRun :=
  ⟨d', g', r.notes ++ r.stage.noted g' r.deployment d'⟩

/-- What can happen, where `lag` says by how much the timer of the loop can be late, if that is
bounded at all, and `outside` what can happen beside the loop. -/
inductive Step (lag : Option Nat) (outside : Deployment → Deployment → Prop) (r : LoopRun) :
    LoopRun → Prop where
  /-- The loop takes a step, whether or not it has been asked to stop. -/
  | loop {d' : Deployment} {g' : Stage} {stopping : Bool}
      (hgo : r.stage.advance r.deployment stopping = .go d' g') : Step lag outside r (r.after d' g')
  | outside {d' : Deployment} (hd : outside r.deployment d') :
      Step lag outside r { r with deployment := d' }
  /-- Time passes. It goes beyond the end of the window of a batch by the lag of the timer only. -/
  | clock {m : Nat} (hle : r.deployment.now ≤ m)
      (hlag : ∀ l ∈ lag, ∀ deadline batch, r.stage = .collecting deadline batch →
        m ≤ deadline + l) :
      Step lag outside r { r with deployment := { r.deployment with now := m } }

theorem Step.mono {lag : Option Nat} {outside outside' : Deployment → Deployment → Prop}
    (hle : ∀ d d', outside d d' → outside' d d') {r r' : LoopRun} (h : Step lag outside r r') :
    Step lag outside' r r' := by
  cases h with
  | loop hgo => exact .loop hgo
  | outside hd => exact .outside (hle _ _ hd)
  | clock hnow hlag => exact .clock hnow hlag

/-- What steps lead to. -/
def Reached (lag : Option Nat) (outside : Deployment → Deployment → Prop) (r₀ r : LoopRun) : Prop :=
  Relation.ReflTransGen (Step lag outside) r₀ r

theorem Reached.mono {lag : Option Nat} {outside outside' : Deployment → Deployment → Prop}
    (hle : ∀ d d', outside d d' → outside' d d') {r₀ r : LoopRun} (h : Reached lag outside r₀ r) :
    Reached lag outside' r₀ r := by
  induction h with
  | refl => exact .refl
  | tail _ hstep ih => exact ih.tail (hstep.mono hle)

/-! ### Runs that are made -/

/-- What can be made to happen, with a timer that is never late. -/
inductive Move where
  | loop
  | deed (a : Deed)
  /-- Time passes up to a moment. -/
  | clock (m : Nat)

/-- The end of the window of the batch that is being collected. -/
def deadline? (r : LoopRun) : Option Nat :=
  match r.stage with
  | .collecting deadline _ => some deadline
  | _ => none

/-- What a move leads to, where it can be made. -/
def move? (r : LoopRun) : Move → Option LoopRun
  | .loop =>
    match r.stage.advance r.deployment false with
    | .go d g => some (r.after d g)
    | _ => none
  | .deed a => some { r with deployment := r.deployment.act a }
  | .clock m =>
    if r.deployment.now ≤ m ∧ r.deadline?.all (m ≤ ·) then
      some { r with deployment := { r.deployment with now := m } }
    else none

/-- What moves lead to, one after the other. -/
def moves? : LoopRun → List Move → Option LoopRun
  | r, [] => some r
  | r, m :: ms => (r.move? m).bind (moves? · ms)

theorem step_of_move? {r r' : LoopRun} {m : Move} (h : r.move? m = some r') :
    Step (some 0) Beside r r' := by
  cases m with
  | loop =>
    rw [move?] at h
    split at h
    · rename_i hgo
      cases h
      exact .loop hgo
    · cases h
  | deed a =>
    cases h
    exact .outside ⟨a, rfl⟩
  | clock m =>
    rw [move?] at h
    split at h
    · rename_i hm
      cases h
      refine .clock hm.1 fun l _ deadline batch hstage => Nat.le_add_right_of_le ?_
      have hdeadline := hm.2
      rw [deadline?, hstage] at hdeadline
      simpa using hdeadline
    · cases h

theorem reached_of_moves? {r₀ r r' : LoopRun} (hr : Reached (some 0) Beside r₀ r) {ms : List Move}
    (h : r.moves? ms = some r') : Reached (some 0) Beside r₀ r' := by
  induction ms generalizing r with
  | nil =>
    cases h
    exact hr
  | cons m ms ih =>
    obtain ⟨u, hu, hms⟩ := Option.bind_eq_some_iff.mp h
    exact ih (hr.tail (step_of_move? hu)) hms

theorem reached_getD_moves? {r₀ : LoopRun} {ms : List Move} (h : (r₀.moves? ms).isSome = true) :
    Reached (some 0) Beside r₀ ((r₀.moves? ms).getD r₀) := by
  obtain ⟨r, hr⟩ := Option.isSome_iff_exists.mp h
  rw [hr]
  exact reached_of_moves? .refl hr

end LoopRun

/-! ### Runs beside a schedule -/

/-- The loop waits for changes, not for ticks. -/
def Stage.ByChanges : Stage → Prop
  | .waiting p => p = .change
  | .collecting _ _ => True
  | .refreshing _ _ _ next => next = .change

theorem Stage.Goes.byChanges {d d' : Deployment} {g g' : Stage} (h : g.Goes d d' g')
    (hg : g.ByChanges) : g'.ByChanges := by
  cases h with
  | first hqueue => trivial
  | more hqueue => trivial
  | due hqueue hdue => exact rfl
  | tick hdue => cases hg
  | concludes hdue => exact hg

/-- While the loop rests, the moment that it waits for is still to come. -/
theorem Stage.lt_moment_of_rest {d : Deployment} {g : Stage} (hg : g.ByChanges) {stopping : Bool}
    (hrest : g.advance d stopping = .rest) {m : Nat} (hm : g.moment? = some m) : d.now < m := by
  cases g with
  | waiting p =>
    obtain rfl : p = .change := hg
    cases hm
  | collecting deadline batch =>
    cases hm
    rw [advance] at hrest
    split at hrest
    · split at hrest
      · cases hrest
      · omega
    · cases hrest
  | refreshing moment found o next =>
    cases hm
    rw [advance] at hrest
    split at hrest
    · cases hrest
    · omega

namespace LoopRun

/-- What the loop is doing in a run beside a schedule, with notes of what it did. -/
def ofRun (r : Run) (notes : List Note) : LoopRun := ⟨r.deployment, r.stage, notes⟩

/-- The loop waits for changes, and after the watch tasks had their turns none of them waits for a
moment that has passed. -/
structure OnTime (r : Run) : Prop where
  byChanges : r.stage.ByChanges
  ahead : r.settled = true →
    ∀ w, r.deployment.reloader.watcher = some w → ∀ t ∈ w.tasks, t.Ahead r.deployment.now

variable {r r' : Run}

theorem ahead_settle (d : Deployment) {w : Watcher} (hw : d.settle.reloader.watcher = some w) :
    ∀ t ∈ w.tasks, t.Ahead d.settle.now := by
  unfold Deployment.settle at hw ⊢
  split at hw
  · rename_i hnone
    rw [hnone] at hw
    cases hw
  · rename_i v hv
    cases hw
    exact Watcher.ahead_settle d.now d.store v

/-- When all parts have had their turns, the clock moves on, but not past the end of a window. -/
theorem OnTime.clock (h : OnTime r) {stopping : Bool}
    (hrest : r.stage.advance r.deployment stopping = .rest) (hsettled : r.settled = true) {m : Nat}
    (hm : r.moment? = some m) : r.deployment.now ≤ m ∧
      ∀ deadline batch, r.stage = .collecting deadline batch → m ≤ deadline := by
  rw [Run.moment?] at hm
  obtain ⟨hpart, hle⟩ := Watcher.earlier?_eq_some hm
  refine ⟨Nat.le_of_lt ?_, fun deadline batch hg => ?_⟩
  · rcases hpart with hpart | htasks
    · rcases (Watcher.earlier?_eq_some hpart).1 with hstage | hscript
      · exact Stage.lt_moment_of_rest h.byChanges hrest hstage
      · split at hscript
        · rename_i hwake
          cases hscript
          exact hwake
        · cases hscript
    · obtain ⟨w, hw, hmoment⟩ := Option.bind_eq_some_iff.mp htasks
      obtain ⟨t, ht, hmoment⟩ := Watcher.exists_task_of_moment? hmoment
      exact h.ahead hsettled w hw t ht m hmoment
  · have hstage : r.stage.moment? = some deadline := by rw [hg]; rfl
    rw [hstage] at hle
    cases hscript : (if r.deployment.now < r.wake then some r.wake else none) with
    | none => exact hle deadline (by rw [hscript]; rfl)
    | some wake =>
      rw [hscript] at hle
      exact Nat.le_trans (hle _ rfl) (Nat.min_le_left deadline wake)

/-- What a schedule does up to where it sleeps happens beside the loop. -/
theorem reached_follow (d : Deployment) (g : Stage) (notes : List Note) (as : List Action) :
    Reached (some 0) Beside ⟨d, g, notes⟩ ⟨(Run.follow d as).1, g, notes⟩ := by
  induction as generalizing d with
  | nil => exact .refl
  | cons a as ih =>
    cases a with
    | store x => exact .head (.outside ⟨.store x, rfl⟩) (ih _)
    | reply x => exact .head (.outside ⟨.reply x, rfl⟩) (ih _)
    | sleep ms =>
      rw [Run.follow]
      split
      · exact ih d
      · exact .refl

theorem OnTime.step (h : OnTime r) (hstep : r.step = some r') (notes : List Note) :
    OnTime r' ∧ ∃ notes', Reached (some 0) Beside (ofRun r notes) (ofRun r' notes') := by
  rw [Run.step] at hstep
  split at hstep
  · cases hstep
  · rename_i d g hgo
    cases hstep
    exact ⟨⟨(Stage.goes_of_advance hgo).byChanges h.byChanges, nofun⟩, _, .single (.loop hgo)⟩
  · rename_i hrest
    split at hstep
    · cases hstep
      exact ⟨⟨h.byChanges, nofun⟩, notes, reached_follow r.deployment r.stage notes r.schedule⟩
    · split at hstep
      · cases hstep
        exact ⟨⟨h.byChanges, fun _ w hw => ahead_settle r.deployment hw⟩, notes,
          .single (.outside ⟨.settle, rfl⟩)⟩
      · rename_i hsettled
        split at hstep
        · rename_i m hm
          cases hstep
          obtain ⟨hle, hwindow⟩ := h.clock hrest (by simpa using hsettled) hm
          exact ⟨⟨h.byChanges, nofun⟩, notes, .single (.clock hle fun _ _ deadline batch hg =>
            Nat.le_add_right_of_le (hwindow deadline batch hg))⟩
        · cases hstep

theorem OnTime.steps (h : OnTime r) (n : Nat) (notes : List Note) :
    ∃ notes', Reached (some 0) Beside (ofRun r notes) (ofRun (r.steps n) notes') := by
  induction n generalizing r notes with
  | zero => exact ⟨notes, .refl⟩
  | succ n ih =>
    rw [Run.steps]
    split
    · rename_i r' hstep
      obtain ⟨h', notes', hr'⟩ := h.step hstep notes
      obtain ⟨notes'', hr''⟩ := ih h' notes'
      exact ⟨notes'', hr'.trans hr''⟩
    · exact ⟨notes, .refl⟩

/-- **A run beside a schedule** is a run of the loop, if recomputations are started by changes. Its
timer is never late. -/
theorem exists_reached_steps (d : Deployment) (hmode : d.reloader.settings.mode = .event)
    (schedule : List Action) (n : Nat) :
    ∃ notes, Reached (some 0) Beside (.begin d)
      (ofRun (Run.steps n ⟨d, .first d.now d.reloader.settings.mode, schedule, d.now, false⟩)
        notes) := by
  rw [hmode]
  have hontime : OnTime ⟨d, .waiting .change, schedule, d.now, false⟩ := ⟨rfl, nofun⟩
  exact hontime.steps n []

end LoopRun

/-- The states in which a loop can begin: the reloader has been started beside a store to which some
things were done, and perhaps it has recomputed or the loop has run before. -/
inductive Deployment.Prepared : Deployment → Prop where
  | start {settings : Settings} {options : Options} {rules : List Rule}
      {history : List Store.Step} {reply : Reply} {d : Deployment}
      (h : Deployment.start settings options rules (.after history) reply = .ok d) : Prepared d
  | act {d : Deployment} (h : Prepared d) (a : Deed) : Prepared (d.act a)
  | pass {d : Deployment} (h : Prepared d) (millis : Nat) : Prepared (d.pass millis)
  | recompute {d : Deployment} (h : Prepared d) : Prepared d.recompute.1
  /-- Watching ends with a run of the loop. -/
  | ran {d : Deployment} {lag : Option Nat} {r : LoopRun} (h : Prepared d)
      (hr : LoopRun.Reached lag Beside (.begin d) r) :
      Prepared { r.deployment with reloader := { r.deployment.reloader with watcher := none } }

end LiveConfig
