import LiveConfig.Deployment.Run
import LiveConfig.Proofs.LoopSteps
import LiveConfig.Proofs.Reloading
import LiveConfig.Proofs.System
import LiveConfig.Proofs.Turns

/-!
# Runs beside a schedule

The loop of a reloader takes turns with a schedule and with the watch tasks, in a fixed order of
precedence and on a common clock. Each thing that it does is made up of moves of a system, in which
everything acts on its own. So what holds in every state that a system can reach holds whenever the
loop runs beside a schedule.

Before it runs, a reloader that has started may be used on demand: things are done to the store,
time passes, and it recomputes when it is told to. That is made up of moves as well.

A recomputation that is begun resolves the rules at once, so that the same store answers all
requests. Tasks have their turns in an order that changes with the moments they wait for, so a
system has the same tasks but not in the same order.

## Main definitions

* `System.Mirrors` — a system has the store and, but for the order of the tasks, the reloader of a
  deployment
* `System.Shows` — what the loop is doing in a system is what the stage of a run says
* `Command`, `Deployment.obey` — what can be done while no loop runs

## Main results

* `System.Mirrors.settle`, `System.Mirrors.advance` — the turns of the tasks and the steps of the
  loop are made up of moves
* `System.Mirrors.obey` — so is what is done on demand
* `System.reached_of_steps` — a system reaches what commands and a run beside a schedule lead to
* `System.Accompanies.quiescent_iff` — it is quiescent if and only if the run is at rest
-/

namespace LiveConfig

open Watch

/-- What can be done with a reloader that has started while no loop runs: what a schedule does, or a
recomputation on demand. -/
inductive Command where
  | action (a : Action)
  | recompute

/-- Do what a command says. -/
def Deployment.obey (d : Deployment) : Command → Deployment
  | .action (.store x) => (d.perform x).1
  | .action (.reply x) => { d with reply := x }
  | .action (.sleep millis) => d.pass millis
  | .recompute => d.recompute.1

namespace System

variable {P : Store.Step → Prop} {d d' : Deployment} {s : System} {work : Work}

/-- Only some things are done to the store. -/
def Doing (P : Store.Step → Prop) (_ : System) (m : Move) : Prop := ∀ x, m = .store x → P x

/-- Whether a move does something to the store. -/
def Move.isStore : Move → Bool
  | .store _ => true
  | _ => false

theorem doing_of_not_isStore {m : Move} (hm : m.isStore = false) : Doing P s m := by
  rintro x rfl
  cases hm

/-- The same watcher, but for the order of the tasks. -/
structure SameTasks (w w' : Watcher) : Prop where
  interest_eq : w'.interest = w.interest
  queue_eq : w'.queue = w.queue
  perm : w'.tasks.Perm w.tasks

/-- A system has the store and, but for the order of the tasks, the reloader of a deployment, which
has started. -/
structure Mirrors (d : Deployment) (s : System) : Prop where
  store_eq : s.store = d.store
  reloader_eq : s.reloader = { d.reloader with watcher := s.reloader.watcher }
  watcher : Option.Rel SameTasks d.reloader.watcher s.reloader.watcher
  started : d.reloader.trigger.current.isSome = true

/-- A system leads to one that mirrors a deployment and in which the loop does something. -/
def LeadsTo (P : Store.Step → Prop) (s : System) (d : Deployment) (work : Work) : Prop :=
  ∃ t, Reached (Doing P) s t ∧ Mirrors d t ∧ t.work = work

theorem SameTasks.refl (w : Watcher) : SameTasks w w := ⟨rfl, rfl, .refl _⟩

theorem sameTasks_refl (w : Option Watcher) : Option.Rel SameTasks w w := by
  cases w with
  | none => exact .none
  | some w => exact .some (.refl w)

theorem isSome_sameTasks {w w' : Option Watcher} (h : Option.Rel SameTasks w w') :
    w'.isSome = w.isSome := by
  cases h <;> rfl

theorem Mirrors.congr (h : Mirrors d s) (hstore : d'.store = d.store)
    (hreloader : d'.reloader = d.reloader) : Mirrors d' s where
  store_eq := h.store_eq.trans hstore.symm
  reloader_eq := by rw [hreloader]; exact h.reloader_eq
  watcher := by rw [hreloader]; exact h.watcher
  started := by rw [hreloader]; exact h.started

theorem Mirrors.leadsTo (h : Mirrors d s) : LeadsTo P s d s.work := ⟨s, .refl, h, rfl⟩

theorem LeadsTo.congr (h : LeadsTo P s d work) (hstore : d'.store = d.store)
    (hreloader : d'.reloader = d.reloader) : LeadsTo P s d' work := by
  obtain ⟨t, ht, hmirrors, hwork⟩ := h
  exact ⟨t, ht, hmirrors.congr hstore hreloader, hwork⟩

theorem LeadsTo.trans (h : LeadsTo P s d work) {work' : Work}
    (h' : ∀ t, Mirrors d t → t.work = work → LeadsTo P t d' work') : LeadsTo P s d' work' := by
  obtain ⟨t, ht, hmirrors, hwork⟩ := h
  obtain ⟨u, hu, hmirrors', hwork'⟩ := h' t hmirrors hwork
  exact ⟨u, ht.trans hu, hmirrors', hwork'⟩

/-- One move that does nothing to the store. -/
theorem leadsTo_of_step {t : System} {m : Move} (ht : s.step m = some t) (hm : m.isStore = false)
    (h : Mirrors d t) (hwork : t.work = work) : LeadsTo P s d work :=
  ⟨t, .move .refl (doing_of_not_isStore hm) ht, h, hwork⟩

theorem setWatcher_eq {r r' : Reloader} (h : r = { r' with watcher := r.watcher })
    (w : Option Watcher) : { r with watcher := w } = { r' with watcher := w } := by
  rw [h]

/-! ### The turns of the watch tasks -/

/-- A deployment with another watcher and another store. -/
def midway (d : Deployment) (w : Watcher) (store : Store) : Deployment :=
  { d with store := store, reloader := { d.reloader with watcher := some w } }

theorem Mirrors.watcher_midway {w : Watcher} {store : Store} (h : Mirrors (midway d w store) s) :
    ∃ w', s.reloader.watcher = some w' ∧ SameTasks w w' := by
  have hwatcher : Option.Rel SameTasks (some w) s.reloader.watcher := h.watcher
  cases hw : s.reloader.watcher with
  | none =>
    rw [hw] at hwatcher
    cases hwatcher
  | some w' =>
    rw [hw] at hwatcher
    cases hwatcher with
    | some hsame => exact ⟨w', rfl, hsame⟩

/-- It does not matter in which order the tasks are listed. -/
theorem Mirrors.reorder {i : Interest} {ts ts' : List Task} {cs : List Change} {store : Store}
    (h : Mirrors (midway d ⟨i, ts, cs⟩ store) s) (hperm : ts.Perm ts') :
    Mirrors (midway d ⟨i, ts', cs⟩ store) s where
  store_eq := h.store_eq
  reloader_eq := h.reloader_eq
  watcher := by
    obtain ⟨w', hw, hsame⟩ := h.watcher_midway
    rw [hw]
    exact .some ⟨hsame.interest_eq, hsame.queue_eq, hsame.perm.trans hperm⟩
  started := h.started

/-- A step of a task is a move. -/
theorem Mirrors.step_task {w : Watcher} {t : Task} {ts : List Task} {store : Store}
    (h : Mirrors (midway d { w with tasks := t :: ts } store) s) (now : Nat) {x : Stride}
    (hx : t.step w.interest now w.hasRoom store = x) :
    LeadsTo P s
      (midway d { w with tasks := x.task :: ts, queue := w.queue ++ x.sent } x.store) s.work := by
  obtain ⟨w', hw, hinterest, hqueue, hperm⟩ := h.watcher_midway
  have hstore : s.store = store := h.store_eq
  have hroom : w'.hasRoom = w.hasRoom := by rw [Watcher.hasRoom, Watcher.hasRoom, hqueue]
  obtain ⟨n, hn, hget⟩ := List.getElem_of_mem (hperm.mem_iff.mpr List.mem_cons_self)
  have hstep : t.step w'.interest now w'.hasRoom s.store = x := by
    rw [hinterest, hroom, hstore]
    exact hx
  have hmove : s.step (.task n now) = some ({ s with store := x.store }.setWatcher
      { w' with tasks := w'.tasks.set n x.task, queue := w'.queue ++ x.sent }) := by
    simp only [step, stepTask, hw, List.getElem?_eq_getElem hn, hget, hstep]
  refine leadsTo_of_step hmove rfl ⟨rfl, ?_, .some ⟨hinterest, ?_, ?_⟩, h.started⟩ rfl
  · exact setWatcher_eq h.reloader_eq _
  · exact congrArg (· ++ x.sent) hqueue
  · have hrest : (w'.tasks.eraseIdx n).Perm ts := by
      have hcons := (List.getElem_cons_eraseIdx_perm hn).trans hperm
      rw [hget] at hcons
      exact hcons.cons_inv
    exact (List.set_perm_cons_eraseIdx hn x.task).trans (hrest.cons x.task)

/-- Whatever steps tasks take, moves can take. -/
theorem keptBySteps_leadsTo (P : Store.Step → Prop) (s : System) (d : Deployment) (work : Work) :
    Watcher.KeptBySteps fun w store => LeadsTo P s (midway d w store) work where
  step now h := h.trans fun _ ht hwork => hwork ▸ ht.step_task now rfl
  perm := by
    rintro i ts ts' cs store hperm ⟨t, ht, hmirrors, hwork⟩
    exact ⟨t, ht, hmirrors.reorder hperm, hwork⟩

theorem Mirrors.of_watcher (h : Mirrors d s) {w : Watcher} (hw : d.reloader.watcher = some w) :
    Mirrors (midway d w d.store) s :=
  h.congr rfl (by rw [midway, ← hw])

/-- **Giving the watch tasks their turns** is a sequence of moves. -/
theorem Mirrors.settle (h : Mirrors d s) : LeadsTo P s d.settle s.work := by
  rw [Deployment.settle]
  split
  · exact h.leadsTo
  · rename_i w hw
    exact ((keptBySteps_leadsTo P s d s.work).settle d.now (h.of_watcher hw).leadsTo).congr rfl rfl

/-- While time passes the watch tasks have their turns, which is a sequence of moves. -/
theorem Mirrors.pass (h : Mirrors d s) (millis : Nat) : LeadsTo P s (d.pass millis) s.work := by
  rw [Deployment.pass]
  split
  · exact h.leadsTo.congr rfl rfl
  · rename_i w hw
    exact ((keptBySteps_leadsTo P s d s.work).pass d.now millis
      (h.of_watcher hw).leadsTo).congr rfl rfl

/-! ### The steps of the loop -/

/-- What the loop is doing in a system is what a stage says. -/
def Shows : Stage → Work → Prop
  | .waiting _, work => ∃ found, work = .pausing found
  | .collecting _ batch, work => ∃ found, work = .collecting found batch
  | .refreshing _ found o _, work =>
    work = .refreshing found o ∧ o.trigger.current.isSome = true

theorem publish_setWatcher (r : Reloader) (w : Option Watcher) :
    { r with watcher := w }.publish = { r.publish with watcher := w } ∧
      r.publish.watcher = r.watcher := by
  cases hcurrent : r.trigger.current <;> simp [Reloader.publish, hcurrent]

theorem updateInterest_sameTasks (r : Reloader) {w : Option Watcher}
    (hw : Option.Rel SameTasks r.watcher w) (res : Resolution) :
    ∃ w', { r with watcher := w }.updateInterest res =
        { r.updateInterest res with watcher := w' } ∧
      Option.Rel SameTasks (r.updateInterest res).watcher w' := by
  have hsome := isSome_sameTasks hw
  unfold Reloader.updateInterest
  by_cases hstays : r.interestIn res = r.interest ∧
      (r.watcher.isSome ∨ ¬ r.shouldWatch (r.interestIn res))
  · rw [if_pos hstays]
    rw [← hsome] at hstays
    exact ⟨w, if_pos hstays, hw⟩
  · rw [if_neg hstays]
    rw [← hsome] at hstays
    exact ⟨r.watcherFor (r.interestIn res), if_neg hstays, sameTasks_refl _⟩

/-- What a recomputation leaves behind does not depend on the order of the tasks. -/
theorem conclude_sameTasks (r : Reloader) {w : Option Watcher}
    (hw : Option.Rel SameTasks r.watcher w) (found : Except Failure Resolution) (o : Offer) :
    ∃ w', { r with watcher := w }.conclude found o = { r.conclude found o with watcher := w' } ∧
      Option.Rel SameTasks (r.conclude found o).watcher w' := by
  obtain ⟨hpublish, hwatcher⟩ := publish_setWatcher { r with trigger := o.trigger } w
  have hw : Option.Rel SameTasks { r with trigger := o.trigger }.publish.watcher w := by
    rw [hwatcher]
    exact hw
  cases found with
  | error f => exact ⟨w, hpublish, hw⟩
  | ok res =>
    obtain ⟨w', hupdate, hsame⟩ := updateInterest_sameTasks _ hw res
    exact ⟨w', (congrArg (·.updateInterest res) hpublish).trans hupdate, hsame⟩

theorem Mirrors.conclude (h : Mirrors d s) {found : Except Failure Resolution} {o : Offer}
    (hwork : s.work = .refreshing found o) (ho : o.trigger.current.isSome = true) :
    LeadsTo P s { d with reloader := d.reloader.conclude found o } (.pausing found) := by
  obtain ⟨w, hconclude, hsame⟩ := conclude_sameTasks d.reloader h.watcher found o
  rw [← h.reloader_eq] at hconclude
  have hmove : s.step .conclude =
      some { s with reloader := s.reloader.conclude found o, work := .pausing found } := by
    simp only [step, hwork]
  refine leadsTo_of_step hmove rfl ⟨h.store_eq, ?_, ?_, ?_⟩ rfl
  · change s.reloader.conclude found o = _
    rw [hconclude]
  · change Option.Rel SameTasks _ (s.reloader.conclude found o).watcher
    rw [hconclude]
    exact hsame
  · change (d.reloader.conclude found o).trigger.current.isSome = true
    rw [Reloader.trigger_conclude]
    exact ho

theorem Mirrors.offer_eq (h : Mirrors d s) (found : Except Failure Resolution) (reply : Reply) :
    s.reloader.offer found reply = d.reloader.offer found reply := by
  rw [h.reloader_eq]
  rfl

/-- If no request has been answered, the rules are resolved at once. -/
theorem resolved_nil (s : System) : s.resolved [] = resolve s.store.cluster s.reloader.options
    s.reloader.settings.space s.reloader.rules := resolvedOver_const ..

theorem Mirrors.resolved_eq (h : Mirrors d s) : s.resolved [] = d.resolved := by
  rw [resolved_nil, h.store_eq, h.reloader_eq]
  rfl

theorem step_hand {asked : List Store} {reply : Reply} {found : Except Failure Resolution}
    (hwork : s.work = .resolving asked) (hfound : s.resolved asked = found)
    (hgo : goesOn s.reloader found reply = true) :
    s.step (.hand reply) =
      some { s with work := .refreshing found (s.reloader.offer found reply) } := by
  simp only [step, hwork, hfound, hgo, if_true]

/-- Beginning a recomputation is a move that begins it, and one that offers what the rules resolve
to. -/
theorem Mirrors.recompute (h : Mirrors d s)
    (hwork : (∃ found, s.work = .pausing found) ∨ ∃ found batch, s.work = .collecting found batch) :
    LeadsTo P s d (.refreshing d.resolved (d.reloader.offer d.resolved d.reply)) := by
  have hbegin : s.step .begin = some { s with work := .resolving [] } := by
    rcases hwork with ⟨found, hwork⟩ | ⟨found, batch, hwork⟩ <;> simp only [step, hwork]
  have hbegun : Mirrors d { s with work := .resolving [] } :=
    ⟨h.store_eq, h.reloader_eq, h.watcher, h.started⟩
  refine (leadsTo_of_step hbegin rfl hbegun rfl).trans fun t ht hwork => ?_
  have hgo : goesOn t.reloader d.resolved d.reply = true := by
    have hstarted : t.reloader.trigger.current.isSome = true := by
      rw [ht.reloader_eq]
      exact ht.started
    rw [goesOn, hstarted]
    rfl
  have hhand := step_hand hwork ht.resolved_eq hgo
  refine leadsTo_of_step hhand rfl ⟨ht.store_eq, ht.reloader_eq, ht.watcher, ht.started⟩ ?_
  rw [← ht.offer_eq]

/-- **A recomputation on demand** is a sequence of moves. -/
theorem Mirrors.recompute_now (h : Mirrors d s) {found : Except Failure Resolution}
    (hwork : s.work = .pausing found) : LeadsTo P s d.recompute.1 (.pausing d.resolved) := by
  have hbegun : LeadsTo P s d.beginRecompute.1
      (.refreshing d.resolved (d.reloader.offer d.resolved d.reply)) :=
    (h.recompute (Or.inl ⟨found, hwork⟩)).congr rfl rfl
  refine hbegun.trans fun t ht hrefreshing => ?_
  refine (ht.pass (d.reloader.offer d.resolved d.reply).waited).trans fun u hu hwork' => ?_
  exact hu.conclude (hwork'.trans hrefreshing) (Trigger.isSome_offer h.started _ _)

theorem Mirrors.queue_eq (h : Mirrors d s) {c : Change} {cs : List Change}
    (hqueue : d.queue = c :: cs) :
    ∃ t, s.takeChange = some (c, t) ∧ Mirrors (d.setQueue cs) t := by
  rw [Deployment.queue] at hqueue
  split at hqueue
  · rename_i w hw
    obtain ⟨w', hw', hsame⟩ := (h.of_watcher hw).watcher_midway
    refine ⟨s.setWatcher { w' with queue := cs }, ?_, h.store_eq, setWatcher_eq h.reloader_eq _, ?_,
      h.started⟩
    · simp only [takeChange, hw', hsame.queue_eq, hqueue]
    · rw [Deployment.setQueue, hw]
      exact .some ⟨hsame.interest_eq, rfl, hsame.perm⟩
  · cases hqueue

/-- Taking the first change out of the queue is a move. -/
theorem Mirrors.take (h : Mirrors d s) {found : Except Failure Resolution} {batch : List Change}
    (hwork : s.work = .pausing found ∧ batch = [] ∨ s.work = .collecting found batch) {c : Change}
    {cs : List Change} (hqueue : d.queue = c :: cs) :
    LeadsTo P s (d.setQueue cs) (.collecting found (batch ++ [c])) := by
  obtain ⟨t, htake, ht⟩ := h.queue_eq hqueue
  have hmove : s.step .take = some { t with work := .collecting found (batch ++ [c]) } := by
    rcases hwork with ⟨hwork, rfl⟩ | hwork <;>
      simp only [step, hwork, htake, Option.map_some, List.nil_append]
  exact leadsTo_of_step hmove rfl ⟨ht.store_eq, ht.reloader_eq, ht.watcher, ht.started⟩ rfl

/-- Taking all changes out of the queue is a sequence of moves. -/
theorem Mirrors.takeAll (h : Mirrors d s) {found : Except Failure Resolution}
    {batch cs : List Change} (hwork : s.work = .collecting found batch) (hqueue : d.queue = cs) :
    LeadsTo P s (d.setQueue []) (.collecting found (batch ++ cs)) := by
  induction cs generalizing d s batch with
  | nil =>
    rw [Deployment.setQueue_self hqueue, List.append_nil, ← hwork]
    exact h.leadsTo
  | cons c cs ih =>
    refine (h.take (Or.inr hwork) hqueue).trans fun t ht hwork' => ?_
    have hne : d.queue ≠ [] := by rw [hqueue]; exact List.cons_ne_nil c cs
    have hrest := ih ht hwork' (Deployment.queue_setQueue hne cs)
    rw [Deployment.setQueue_setQueue, List.append_assoc] at hrest
    exact hrest

theorem Mirrors.begin (h : Mirrors d s)
    (hwork : (∃ found, s.work = .pausing found) ∨ ∃ found batch, s.work = .collecting found batch)
    (next : Pause) :
    ∃ work, LeadsTo P s d.beginRecompute.1 work ∧ Shows (d.refreshing next) work :=
  ⟨_, (h.recompute hwork).congr rfl rfl, rfl, Trigger.isSome_offer h.started _ _⟩

/-- **A step of the loop** is a sequence of moves. -/
theorem Mirrors.advance (h : Mirrors d s) {g g' : Stage} (hg : Shows g s.work) {stopping : Bool}
    (hgo : g.advance d stopping = .go d' g') : ∃ work, LeadsTo P s d' work ∧ Shows g' work := by
  cases Stage.goes_of_advance hgo with
  | first hqueue =>
    obtain ⟨found, hwork⟩ := hg
    exact ⟨_, h.take (Or.inl ⟨hwork, rfl⟩) hqueue, found, rfl⟩
  | more =>
    obtain ⟨found, hwork⟩ := hg
    exact ⟨_, h.takeAll hwork rfl, found, rfl⟩
  | due =>
    obtain ⟨found, hwork⟩ := hg
    exact h.begin (Or.inr ⟨found, _, hwork⟩) .change
  | tick =>
    obtain ⟨found, hwork⟩ := hg
    exact h.begin (Or.inl ⟨found, hwork⟩) _
  | @concludes moment found o next =>
    obtain ⟨hwork, ho⟩ := hg
    exact ⟨_, h.conclude hwork ho, found, rfl⟩

/-! ### Whole runs -/

theorem Mirrors.perform (h : Mirrors d s) {x : Store.Step} (hx : P x) :
    LeadsTo P s (d.perform x).1 s.work := by
  have hmove : s.step (.store x) = some { s with store := (s.store.perform x).1 } := rfl
  refine ⟨_, .move .refl (fun y hy => ?_) hmove, ⟨?_, h.reloader_eq, h.watcher, h.started⟩, rfl⟩
  · cases hy
    exact hx
  · exact congrArg (fun store => (store.perform x).1) h.store_eq

/-- **What a command says** is a sequence of moves, after which the loop pauses as before. -/
theorem Mirrors.obey (h : Mirrors d s) {found : Except Failure Resolution}
    (hwork : s.work = .pausing found) {c : Command} (hc : ∀ x, c = .action (.store x) → P x) :
    ∃ found', LeadsTo P s (d.obey c) (.pausing found') := by
  cases c with
  | recompute => exact ⟨_, h.recompute_now hwork⟩
  | action a =>
    refine ⟨found, ?_⟩
    rw [← hwork]
    cases a with
    | store x => exact h.perform (hc x rfl)
    | reply x => exact h.leadsTo.congr rfl rfl
    | sleep millis => exact h.pass millis

theorem LeadsTo.obeyAll {found : Except Failure Resolution} (h : LeadsTo P s d (.pausing found))
    (cs : List Command) (hP : ∀ x, .action (.store x) ∈ cs → P x) :
    ∃ found', LeadsTo P s (cs.foldl Deployment.obey d) (.pausing found') := by
  induction cs generalizing d found with
  | nil => exact ⟨found, h⟩
  | cons c cs ih =>
    obtain ⟨t, ht, hmirrors, hwork⟩ := h
    obtain ⟨found', u, hu, hrest⟩ := hmirrors.obey hwork fun x hx => hP x (hx ▸ List.mem_cons_self)
    exact ih ⟨u, ht.trans hu, hrest⟩ fun x hx => hP x (List.mem_cons_of_mem c hx)

/-- What a schedule does up to where it sleeps is a sequence of moves. -/
theorem Mirrors.follow (h : Mirrors d s) (as : List Action) (hP : ∀ x, .store x ∈ as → P x) :
    LeadsTo P s (Run.follow d as).1 s.work := by
  induction as generalizing d s with
  | nil => exact h.leadsTo
  | cons a as ih =>
    have hrest : ∀ x, .store x ∈ as → P x := fun x hx => hP x (List.mem_cons_of_mem a hx)
    cases a with
    | store x =>
      refine (h.perform (hP x List.mem_cons_self)).trans fun t ht hwork => ?_
      rw [← hwork]
      exact ih ht hrest
    | reply x => exact ih (h.congr rfl rfl) hrest
    | sleep ms =>
      rw [Run.follow]
      split
      · exact ih h hrest
      · exact h.leadsTo

theorem mem_of_mem_follow {as : List Action} {a : Action} (h : a ∈ (Run.follow d as).2.1) :
    a ∈ as := by
  induction as generalizing d with
  | nil => exact h
  | cons b as ih =>
    cases b with
    | store x => exact List.mem_cons_of_mem _ (ih h)
    | reply x => exact List.mem_cons_of_mem _ (ih h)
    | sleep ms =>
      rw [Run.follow] at h
      split at h
      · exact List.mem_cons_of_mem _ (ih h)
      · exact List.mem_cons_of_mem _ h

/-- A system mirrors a run whose schedule does only some things. -/
structure Accompanies (P : Store.Step → Prop) (r : Run) (s : System) : Prop where
  mirrors : Mirrors r.deployment s
  shows : Shows r.stage s.work
  allowed : ∀ x, .store x ∈ r.schedule → P x

/-- **Each thing that happens in a run** is a sequence of moves. -/
theorem Accompanies.step {r r' : Run} (h : Accompanies P r s) (hstep : r.step = some r') :
    ∃ t, Reached (Doing P) s t ∧ Accompanies P r' t := by
  rw [Run.step] at hstep
  split at hstep
  · cases hstep
  · rename_i d g hgo
    cases hstep
    obtain ⟨work, ⟨t, ht, hmirrors, hwork⟩, hshows⟩ := h.mirrors.advance (P := P) h.shows hgo
    exact ⟨t, ht, hmirrors, hwork ▸ hshows, h.allowed⟩
  · split at hstep
    · cases hstep
      obtain ⟨t, ht, hmirrors, hwork⟩ := h.mirrors.follow r.schedule h.allowed
      exact ⟨t, ht, hmirrors, hwork ▸ h.shows, fun x hx => h.allowed x (mem_of_mem_follow hx)⟩
    · split at hstep
      · cases hstep
        obtain ⟨t, ht, hmirrors, hwork⟩ := h.mirrors.settle (P := P)
        exact ⟨t, ht, hmirrors, hwork ▸ h.shows, h.allowed⟩
      · split at hstep
        · cases hstep
          exact ⟨s, .refl, h.mirrors.congr rfl rfl, h.shows, h.allowed⟩
        · cases hstep

theorem Accompanies.steps {r : Run} (h : Accompanies P r s) (n : Nat) :
    ∃ t, Reached (Doing P) s t ∧ Accompanies P (r.steps n) t := by
  induction n generalizing r s with
  | zero => exact ⟨s, .refl, h⟩
  | succ n ih =>
    rw [Run.steps]
    split
    · rename_i r' hstep
      obtain ⟨t, ht, h'⟩ := h.step hstep
      obtain ⟨u, hu, h''⟩ := ih h'
      exact ⟨u, ht.trans hu, h''⟩
    · exact ⟨s, .refl, h⟩

/-- A deployment that has started has the store that it started beside, and its reloader. -/
theorem start_eq_ok {settings : Settings} {options : Options} {rules : List Rule} {store : Store}
    {reply : Reply} (hstart : Deployment.start settings options rules store reply = .ok d) :
    d.store = store ∧ ∃ o, Reloader.start settings options rules
      (resolve store.cluster options settings.space rules) reply = .ok (d.reloader, o) := by
  obtain ⟨⟨r, o⟩, hr, hd⟩ := bind_eq_ok.mp hstart
  cases hd
  exact ⟨rfl, o, hr⟩

/-- A start is a move that offers what the rules resolve to, and one that concludes it. -/
theorem leadsTo_start {settings : Settings} {options : Options} {rules : List Rule}
    {history : List Store.Step} {reply : Reply}
    (hstart : Deployment.start settings options rules (.after history) reply = .ok d) :
    ∃ found, LeadsTo P (initial settings options rules history) d (.pausing found) := by
  obtain ⟨hstore, o, hr⟩ := start_eq_ok hstart
  obtain ⟨res, x, hres, hx, ho, hreloader⟩ := Reloader.start_eq_ok.mp hr
  have hresolved : (initial settings options rules history).resolved [] = .ok res :=
    (resolved_nil _).trans hres
  have hgo : goesOn (.idle settings options rules) (.ok res) reply = true := by
    change (_ || (Reloader.start settings options rules (.ok res) reply).isOk) = true
    rw [← hres, hr]
    rfl
  have hhand : (initial settings options rules history).step (.hand reply) =
      some ⟨.after history, .idle settings options rules, .refreshing (.ok res) o⟩ := by
    rw [ho, hres]
    exact step_hand rfl hresolved hgo
  have hconclude : (⟨.after history, .idle settings options rules, .refreshing (.ok res) o⟩ :
      System).step .conclude = some ⟨.after history, d.reloader, .pausing (.ok res)⟩ := by
    rw [hreloader, hres]
    rfl
  have hstarted : d.reloader.trigger.current.isSome = true := by
    have hbuilt : (Except.ok res : Except Failure Resolution).bind Resolution.snapshot = .ok x := hx
    have hcurrent : o.trigger.current.map Snapshot.properties = some x.properties := by
      rw [ho, hres, Reloader.offer, hbuilt]
      exact Trigger.properties_offer _ x reply
    rw [hreloader, Reloader.trigger_conclude]
    obtain ⟨y, hy, -⟩ := Option.map_eq_some_iff.mp hcurrent
    rw [hy]
    rfl
  have hmirrors : Mirrors d ⟨.after history, d.reloader, .pausing (.ok res)⟩ :=
    ⟨hstore.symm, rfl, sameTasks_refl _, hstarted⟩
  have hoffered : Reached (Doing P) (initial settings options rules history) _ :=
    .move .refl (doing_of_not_isStore (by rfl)) hhand
  exact ⟨.ok res, _, .move hoffered (doing_of_not_isStore (by rfl)) hconclude, hmirrors, rfl⟩

/-- **Every run beside a schedule**, after a start and whatever was done on demand since then, is
mirrored by a run of the system that begins to start, in which nothing is done to the store but what
the commands and the schedule do. -/
theorem reached_of_steps {settings : Settings} {options : Options} {rules : List Rule}
    {history : List Store.Step} {reply : Reply} {d₀ : Deployment}
    (hstart : Deployment.start settings options rules (.after history) reply = .ok d₀)
    {commands : List Command} (hcommands : ∀ x, .action (.store x) ∈ commands → P x)
    {schedule : List Action} (hschedule : ∀ x, .store x ∈ schedule → P x) (n : Nat) :
    let d := commands.foldl Deployment.obey d₀
    ∃ s, Reached (Doing P) (initial settings options rules history) s ∧
      Accompanies P
        (Run.steps n ⟨d, .first d.now d.reloader.settings.mode, schedule, d.now, false⟩) s := by
  intro d
  obtain ⟨found₀, hled₀⟩ := leadsTo_start (P := P) hstart
  obtain ⟨found, s, hs, hmirrors, hwork⟩ := hled₀.obeyAll commands hcommands
  have hshows : Shows (.first d.now d.reloader.settings.mode) s.work := by
    cases d.reloader.settings.mode <;> exact ⟨found, hwork⟩
  have h : Accompanies P ⟨d, .first d.now d.reloader.settings.mode, schedule, d.now, false⟩ s :=
    ⟨hmirrors, hshows, hschedule⟩
  obtain ⟨t, ht, h⟩ := h.steps n
  exact ⟨t, hs.trans ht, h⟩

/-! ### Rest -/

/-- Nothing is left to be done in a run: the loop pauses, the queue is empty, and every watch task
has a stream and has read all that it reports. -/
def AtRest (r : Run) : Prop :=
  (∃ p, r.stage = .waiting p) ∧ ∀ w, r.deployment.reloader.watcher = some w →
    w.queue = [] ∧ ∀ t ∈ w.tasks, Idle r.deployment.store t

theorem exists_pausing_iff {g : Stage} (h : Shows g work) :
    (∃ found, work = .pausing found) ↔ ∃ p, g = .waiting p := by
  cases g with
  | waiting p => exact ⟨fun _ => ⟨p, rfl⟩, fun _ => h⟩
  | collecting deadline batch =>
    obtain ⟨found, rfl⟩ := h
    simp
  | refreshing moment found o next =>
    obtain ⟨rfl, -⟩ := h
    simp

theorem forall_sameTasks_iff {w w' : Option Watcher} (h : Option.Rel SameTasks w w')
    {Q Q' : Watcher → Prop} (hQ : ∀ v v', SameTasks v v' → (Q' v' ↔ Q v)) :
    (∀ v, w' = some v → Q' v) ↔ ∀ v, w = some v → Q v := by
  cases h with
  | none => simp
  | some hsame => simp [hQ _ _ hsame]

/-- **A run is at rest** if and only if the system that mirrors it is quiescent. -/
theorem Accompanies.quiescent_iff {r : Run} (h : Accompanies P r s) : s.Quiescent ↔ AtRest r := by
  refine and_congr (exists_pausing_iff h.shows)
    (forall_sameTasks_iff h.mirrors.watcher fun w w' hsame => ?_)
  rw [hsame.queue_eq, h.mirrors.store_eq]
  refine and_congr_right fun _ => forall_congr' fun t => ?_
  rw [hsame.perm.mem_iff]

end System

end LiveConfig
