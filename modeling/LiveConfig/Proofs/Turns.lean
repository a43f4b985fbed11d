import LiveConfig.Watch.Watcher
import Mathlib.Data.List.Perm.Basic

/-!
# Turns of the watch tasks

Giving the tasks of a watcher their turns comes down to single steps of tasks, one after the other
on the same queue and the same store. In which order the tasks are listed depends on the moments
they wait for. So a property of watchers and stores that every step keeps, and for which the order
of the tasks does not matter, is kept by turns, however long they last (`KeptBySteps.settle`,
`KeptBySteps.pass`).

After their turns the tasks that wait for a moment wait for one that is still to come.

## Main definitions

* `Watcher.KeptBySteps` — a property that every step of a task keeps

## Main results

* `Watcher.KeptBySteps.settle`, `Watcher.KeptBySteps.pass` — turns keep it too
* `Watcher.ahead_settle` — after their turns no task waits for a moment that has passed
-/

namespace LiveConfig.Watch

namespace Watcher

/-- A property of a watcher and its store that no step of a task takes away, whatever the moment,
and for which it does not matter in which order the tasks are listed. -/
structure KeptBySteps (P : Watcher → Store → Prop) : Prop where
  step : ∀ {w : Watcher} {t : Task} {ts : List Task} {s : Store} (now : Nat),
    P { w with tasks := t :: ts } s →
      P { w with
          tasks := (t.step w.interest now w.hasRoom s).task :: ts
          queue := w.queue ++ (t.step w.interest now w.hasRoom s).sent }
        (t.step w.interest now w.hasRoom s).store
  perm : ∀ {i : Interest} {ts ts' : List Task} {cs : List Change} {s : Store}, ts.Perm ts' →
    P ⟨i, ts, cs⟩ s → P ⟨i, ts', cs⟩ s

namespace KeptBySteps

variable {P : Watcher → Store → Prop}

/-- The turn of one task. Tasks that had their turns stand in front of those that have not. -/
theorem runTask (hP : KeptBySteps P) {w : Watcher} {t : Task} {ts : List Task} {s : Store}
    (now n : Nat) (counted : List Counter) (h : P { w with tasks := t :: (w.tasks ++ ts) } s)
    {r : Task × Turn} (hr : Watcher.runTask now n t w s counted = r) :
    P { r.2.watcher with tasks := r.1 :: (r.2.watcher.tasks ++ ts) } r.2.store := by
  induction n generalizing t w s counted with
  | zero =>
    subst hr
    exact h
  | succ n ih =>
    have hstep := hP.step now h
    rw [Watcher.runTask] at hr
    split at hr
    · subst hr
      exact hstep
    · exact ih _ hstep hr

/-- The turns of some tasks, one after the other. -/
theorem runTasks (hP : KeptBySteps P) {w : Watcher} {ts : List Task} {s : Store} (now : Nat)
    (counted : List Counter) (h : P { w with tasks := w.tasks ++ ts } s) {r : Turn}
    (hr : Watcher.runTasks now ts w s counted = r) : P r.watcher r.store := by
  induction ts generalizing w s counted with
  | nil =>
    subst hr
    rwa [List.append_nil] at h
  | cons t ts ih =>
    rcases hturn : Watcher.runTask now (Watcher.stepBound s) t w s counted with ⟨t', x⟩
    rw [Watcher.runTasks, hturn] at hr
    have hfront : P { w with tasks := t :: (w.tasks ++ ts) } s := hP.perm List.perm_middle h
    have hturned := hP.runTask now _ counted hfront hturn
    have hback : (t' :: (x.watcher.tasks ++ ts)).Perm (x.watcher.tasks ++ [t'] ++ ts) := by
      rw [List.append_assoc]
      exact List.perm_middle.symm
    have hrest : P { x.watcher with tasks := x.watcher.tasks ++ [t'] ++ ts } x.store :=
      hP.perm hback hturned
    exact ih _ hrest hr

/-- **What every step keeps is kept when all tasks have their turns.** -/
theorem settle (hP : KeptBySteps P) {w : Watcher} {s : Store} (now : Nat) (h : P w s) :
    P (w.settle now s).watcher (w.settle now s).store := by
  have horder : w.tasks.Perm (w.tasks.filter (!Watcher.isDue now ·) ++
      w.tasks.filter (Watcher.isDue now)) :=
    (List.perm_append_comm.trans (List.filter_append_perm _ _)).symm
  have hordered : P { w with tasks := _ } s := hP.perm horder h
  exact hP.runTasks (w := { w with tasks := [] }) now [] hordered rfl

theorem elapse (hP : KeptBySteps P) {w : Watcher} {s : Store} (horizon n now : Nat)
    (counted : List Counter) (h : P w s) {r : Turn}
    (hr : Watcher.elapse horizon n now w s counted = r) : P r.watcher r.store := by
  induction n generalizing now w s counted with
  | zero =>
    subst hr
    exact h
  | succ n ih =>
    have hsettle := hP.settle now h
    rw [Watcher.elapse] at hr
    split at hr
    · split at hr
      · exact ih _ _ hsettle hr
      · subst hr
        exact hsettle
    · subst hr
      exact hsettle

/-- **What every step keeps is kept while time passes.** -/
theorem pass (hP : KeptBySteps P) {w : Watcher} {s : Store} (now millis : Nat) (h : P w s) :
    P (w.pass now millis s).watcher (w.pass now millis s).store := by
  rw [Watcher.pass]
  split
  · exact h
  · exact hP.elapse _ _ now [] h rfl

end KeptBySteps

end Watcher

/-! ### Moments -/

namespace Task

/-- A task waits for no moment that has passed. -/
def Ahead (now : Nat) (t : Task) : Prop := ∀ m, t.moment? = some m → now < m

theorem ahead_lose (now : Nat) (s : Store) (t : Task) (fault : LinkFault) :
    (t.lose now s fault).task.Ahead now := by
  intro m hm
  simp only [lose, moment?] at hm
  split at hm
  · rename_i m' ha
    cases hm
    split at ha
    · cases ha
    · rename_i hdelay
      cases ha
      omega
  · cases hm

theorem ahead_receive (now : Nat) (i : Interest) (s : Store) (t : Task) (sub : Subscription)
    (e : Event) : (t.receive i s sub e).task.Ahead now := by
  intro m hm
  simp only [receive, moment?] at hm
  split at hm
  · rename_i ha
    split at ha <;> cases ha
  · cases hm

/-- After a step a task waits for no moment that has passed: it has gone on, or the moment is still
to come. -/
theorem ahead_step (i : Interest) (now : Nat) (room : Bool) (s : Store) (t : Task) :
    (t.step i now room s).task.Ahead now := by
  unfold step
  split
  · split
    · exact nofun
    · exact ahead_lose now _ t _
  · split
    · exact ahead_receive now i s t _ _
    · exact ahead_lose now s t _
    · exact ahead_lose now s t _
    · exact nofun
  · rename_i ha
    split
    · exact nofun
    · intro m hm
      rw [moment?, ha] at hm
      cases hm
  · rename_i moment ha
    split
    · exact nofun
    · rename_i hmoment
      intro m hm
      rw [moment?, ha] at hm
      cases hm
      omega

end Task

namespace Watcher

theorem tasks_runTask (now n : Nat) (t : Task) (w : Watcher) (s : Store) (counted : List Counter) :
    (runTask now n t w s counted).2.watcher.tasks = w.tasks := by
  induction n generalizing t w s counted with
  | zero => rfl
  | succ n ih =>
    rw [runTask]
    split
    · rfl
    · exact ih ..

/-- A turn ends with a step, so that after it the task waits for no moment that has passed. -/
theorem ahead_runTask {now n : Nat} {t : Task} (h : n = 0 → t.Ahead now) (w : Watcher) (s : Store)
    (counted : List Counter) : (runTask now n t w s counted).1.Ahead now := by
  induction n generalizing t w s counted with
  | zero => exact h rfl
  | succ n ih =>
    have hstep := t.ahead_step w.interest now w.hasRoom s
    rw [runTask]
    split
    · exact hstep
    · exact ih (fun _ => hstep) _ _ _

theorem ahead_runTasks {now : Nat} {ts : List Task} {w : Watcher} (h : ∀ t ∈ w.tasks, t.Ahead now)
    (s : Store) (counted : List Counter) :
    ∀ t ∈ (runTasks now ts w s counted).watcher.tasks, t.Ahead now := by
  induction ts generalizing w s counted with
  | nil => exact h
  | cons t ts ih =>
    have hbound : stepBound s ≠ 0 := Nat.succ_ne_zero _
    have hturned : (runTask now (stepBound s) t w s counted).1.Ahead now :=
      ahead_runTask (fun hzero => absurd hzero hbound) w s counted
    have htasks := tasks_runTask now (stepBound s) t w s counted
    rcases hturn : runTask now (stepBound s) t w s counted with ⟨t', x⟩
    rw [hturn] at hturned htasks
    rw [runTasks, hturn]
    refine ih (fun u hu => ?_) _ _
    rcases List.mem_append.mp hu with hu | hu
    · exact h u (htasks ▸ hu)
    · rw [List.mem_singleton.mp hu]
      exact hturned

/-- **After their turns the tasks wait for no moment that has passed.** -/
theorem ahead_settle (now : Nat) (s : Store) (w : Watcher) :
    ∀ t ∈ (w.settle now s).watcher.tasks, t.Ahead now :=
  ahead_runTasks (fun _ ht => absurd ht List.not_mem_nil) s []

theorem earlier?_eq_some {a b : Option Nat} {m : Nat} (h : earlier? a b = some m) :
    (a = some m ∨ b = some m) ∧ ∀ x, a = some x → m ≤ x := by
  cases a with
  | none => exact ⟨Or.inr h, nofun⟩
  | some x =>
    cases b with
    | none =>
      cases h
      exact ⟨Or.inl rfl, fun y hy => Nat.le_of_eq (Option.some.inj hy)⟩
    | some y =>
      cases h
      refine ⟨?_, fun z hz => Option.some.inj hz ▸ Nat.min_le_left x y⟩
      rcases Nat.le_total x y with hxy | hyx
      · exact Or.inl (by rw [Nat.min_eq_left hxy])
      · exact Or.inr (by rw [Nat.min_eq_right hyx])

/-- The moment that a watcher waits for is one that a task waits for. -/
theorem exists_task_of_moment? {w : Watcher} {m : Nat} (h : w.moment? = some m) :
    ∃ t ∈ w.tasks, t.moment? = some m := by
  have hfold : ∀ (l : List (Option Nat)) (a : Option Nat), l.foldl earlier? a = some m →
      a = some m ∨ some m ∈ l := by
    intro l
    induction l with
    | nil => exact fun a ha => Or.inl ha
    | cons b l ih =>
      intro a ha
      rcases ih _ ha with hab | hl
      · rcases (earlier?_eq_some hab).1 with ha | hb
        · exact Or.inl ha
        · exact Or.inr (hb ▸ List.mem_cons_self)
      · exact Or.inr (List.mem_cons_of_mem b hl)
  rcases hfold _ _ h with hnone | hmem
  · cases hnone
  · exact List.mem_map.mp hmem

end Watcher

end LiveConfig.Watch
