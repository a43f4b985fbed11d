import LiveConfig.Proofs.LoopRuns
import LiveConfig.Proofs.Schedules

/-!
# Debouncing

Changes that come close together lead to one recomputation. The first change that the loop receives
starts a batch, all that it receives up to the end of the window is added, and one recomputation
follows. No change is lost that way: what the loop received before a recomputation began was
signalled before, so that the rules are resolved in a store that has the object as the change left
it, or as it was left later on.

The window of a batch is over when its end has come and no change waits. If the timer of the loop is
late then what comes in the meantime is part of the batch as well. Time goes on in milliseconds, and
a recomputation may take none of it. So a change can be received at the very end of a window
although the recomputation of that batch has begun: for one, if the interest changes, a new watcher
reports at once what exists. Such a change starts the next batch.

## Main definitions

* `Batch` — changes, and the recomputation that follows them
* `LoopRun.Coalesced` — what the loop did falls into batches
* `Note.Sees` — a recomputation sees a change that was received before it, or what came later

## Main results

* `LoopRun.Coalesced.loop` — a step of the loop keeps batches
* `LoopRun.Informed.step` — changes that were received are signalled in the store
* `LoopRun.debounced` — changes are coalesced, and the recomputation misses none of them
-/

namespace LiveConfig

open Watch

/-! ### Batches -/

/-- Changes, and the recomputation that follows them. -/
structure Batch where
  first : Receipt
  further : List Receipt
  start : Onset

namespace Batch

/-- The changes of a batch. -/
def receipts (b : Batch) : List Receipt := b.first :: b.further

/-- What the loop does with a batch. -/
def notes (b : Batch) : List Note := b.receipts.map .received ++ [.began b.start]

/-- The changes come up to and including the end of the window, or by the lag of the timer later;
the recomputation begins at the end of the window or later, and then no change waits. -/
structure Timely (lag : Option Nat) (w : Nat) (b : Batch) : Prop where
  within : ∀ l ∈ lag, ∀ x ∈ b.further, x.moment ≤ b.first.moment + w + l
  waits : b.first.moment + w ≤ b.start.moment
  left : b.start.left = []

end Batch

/-- Something holds of every batch and every change that is received after its recomputation has
begun. -/
def AfterStart (P : Batch → Receipt → Prop) (done : List Batch) (rest : List Receipt) : Prop :=
  (done.Pairwise fun b b' => ∀ x ∈ b'.receipts, P b x) ∧ ∀ b ∈ done, ∀ x ∈ rest, P b x

namespace LoopRun

/-- A batch is being collected. -/
structure Collects (lag : Option Nat) (w : Nat) (r : LoopRun) (first : Receipt)
    (further : List Receipt) : Prop where
  stage_eq : r.stage =
    .collecting (first.moment + w) ((first :: further).map Receipt.change)
  now_le : ∀ l ∈ lag, r.deployment.now ≤ first.moment + w + l
  within : ∀ l ∈ lag, ∀ x ∈ further, x.moment ≤ first.moment + w + l

/-- What is being collected. -/
def Collecting (lag : Option Nat) (w : Nat) (r : LoopRun) : List Receipt → Prop
  | [] => ∀ deadline batch, r.stage ≠ .collecting deadline batch
  | first :: further => r.Collects lag w first further

/-- The loop goes on with a batch, whether or not it has been asked to stop. It rests only before
the end of the window. -/
def GoesOn (w : Nat) (r : LoopRun) (first : Receipt) : Prop :=
  ∀ stopping, (∃ d' g', r.stage.advance r.deployment stopping = .go d' g') ∨
    r.stage.advance r.deployment stopping = .rest ∧ r.deployment.now < first.moment + w

/-- What the loop did falls into batches, each with its recomputation, and the changes that are
being collected. -/
structure Coalesced (lag : Option Nat) (w : Nat) (r : LoopRun) (done : List Batch)
    (rest : List Receipt) : Prop where
  notes_eq : r.notes = done.flatMap Batch.notes ++ rest.map .received
  chronological : r.notes.Pairwise fun a b => a.moment ≤ b.moment
  past : ∀ a ∈ r.notes, a.moment ≤ r.deployment.now
  timely : ∀ b ∈ done, b.Timely lag w
  spaced : done.Pairwise fun b b' => b.start.moment + w ≤ b'.start.moment
  /-- What is received after a batch is received when its recomputation has begun. -/
  later : AfterStart (fun b x => b.start.moment ≤ x.moment) done rest
  collecting : r.Collecting lag w rest

variable {lag : Option Nat} {w : Nat} {r : LoopRun} {d' : Deployment} {g' : Stage}
  {done : List Batch} {rest : List Receipt}

theorem coalesced_begin (lag : Option Nat) (w : Nat) (d : Deployment) :
    (begin d).Coalesced lag w [] [] where
  notes_eq := rfl
  chronological := .nil
  past _ ha := absurd ha List.not_mem_nil
  timely _ hb := absurd hb List.not_mem_nil
  spaced := .nil
  later := ⟨.nil, fun _ hb => absurd hb List.not_mem_nil⟩
  collecting := nofun

/-- The recomputation of a batch began in the past. -/
theorem Coalesced.start_le (h : r.Coalesced lag w done rest) {b : Batch} (hb : b ∈ done) :
    b.start.moment ≤ r.deployment.now := by
  refine h.past (.began b.start) ?_
  rw [h.notes_eq]
  exact List.mem_append_left _ (List.mem_flatMap.mpr ⟨b, hb, by simp [Batch.notes]⟩)

/-- What a step of the loop does, it does now. -/
theorem moment_of_mem_noted {a : Note} {g : Stage} {d : Deployment} (ha : a ∈ g.noted g' d d') :
    a.moment = d.now := by
  rcases List.mem_append.mp ha with ha | ha
  · obtain ⟨c, -, rfl⟩ := List.mem_map.mp ha
    rfl
  · obtain ⟨y, hy, rfl⟩ := List.mem_map.mp ha
    cases g' with
    | waiting p => cases hy
    | collecting deadline batch => cases hy
    | refreshing moment found o next => rw [List.mem_singleton.mp hy]; rfl

theorem Collects.goesOn {first : Receipt} {further : List Receipt}
    (h : r.Collects lag w first further) : r.GoesOn w first := by
  intro stopping
  rw [h.stage_eq, Stage.advance]
  split
  · split
    · exact Or.inl ⟨_, _, rfl⟩
    · exact Or.inr ⟨rfl, by omega⟩
  · exact Or.inl ⟨_, _, rfl⟩

theorem Coalesced.chronological_after (h : r.Coalesced lag w done rest) :
    (r.after d' g').notes.Pairwise fun a b => a.moment ≤ b.moment := by
  have hnew : ∀ b ∈ r.stage.noted g' r.deployment d', b.moment = r.deployment.now :=
    fun b hb => moment_of_mem_noted hb
  refine List.pairwise_append.mpr ⟨h.chronological, ?_, fun a ha b hb => ?_⟩
  · exact List.pairwise_of_forall_mem_list fun a ha b hb =>
      Nat.le_of_eq ((hnew a ha).trans (hnew b hb).symm)
  · rw [hnew b hb]
    exact h.past a ha

theorem Coalesced.past_after (h : r.Coalesced lag w done rest) (hnow : d'.now = r.deployment.now) :
    ∀ a ∈ (r.after d' g').notes, a.moment ≤ (r.after d' g').deployment.now := by
  intro a ha
  change a.moment ≤ d'.now
  rw [hnow]
  rcases List.mem_append.mp ha with ha | ha
  · exact h.past a ha
  · exact Nat.le_of_eq (moment_of_mem_noted ha)

/-! ### What every step keeps -/

section Steps

variable {d : Deployment} {notes : List Note}

/-- Nothing is collected in any other stage. -/
theorem Coalesced.rest_eq_nil (h : r.Coalesced lag w done rest)
    (hstage : ∀ deadline batch, r.stage ≠ .collecting deadline batch) : rest = [] := by
  cases rest with
  | nil => rfl
  | cons x xs => exact absurd h.collecting.stage_eq (hstage _ _)

/-- A batch that is being collected has a first change. -/
theorem Coalesced.exists_cons {deadline : Nat} {batch : List Change}
    (h : Coalesced lag w ⟨d, .collecting deadline batch, notes⟩ done rest) :
    ∃ x xs, rest = x :: xs ∧ deadline = x.moment + w ∧ batch = (x :: xs).map Receipt.change := by
  cases rest with
  | nil => exact absurd rfl (h.collecting deadline batch)
  | cons x xs =>
    injection h.collecting.stage_eq with hdeadline hbatch
    exact ⟨x, xs, rfl, hdeadline, hbatch⟩

theorem Coalesced.first {c : Change} {cs : List Change}
    (h : Coalesced lag w ⟨d, .waiting .change, notes⟩ done rest) (hw : d.reloader.window = w)
    (hqueue : d.queue = c :: cs) :
    (after ⟨d, .waiting .change, notes⟩ (d.setQueue cs)
      (.collecting (d.now + d.reloader.window) [c])).Coalesced lag w done
        [⟨d.now, c, d.store⟩] := by
  obtain rfl := h.rest_eq_nil nofun
  have hnotes : notes = done.flatMap Batch.notes ++ [].map .received := h.notes_eq
  exact {
    notes_eq := by
      rw [after, Stage.noted_first hqueue, hnotes, List.append_assoc]
      rfl
    chronological := h.chronological_after
    past := h.past_after rfl
    timely := h.timely
    spaced := h.spaced
    later := ⟨h.later.1, fun b hb x hx => List.mem_singleton.mp hx ▸ h.start_le hb⟩
    collecting := by
      refine ⟨by rw [hw]; rfl, fun l _ => ?_, fun _ _ => List.forall_mem_nil _⟩
      exact Nat.le_add_right_of_le (Nat.le_add_right d.now w) }

theorem Coalesced.more {deadline : Nat} {batch : List Change}
    (h : Coalesced lag w ⟨d, .collecting deadline batch, notes⟩ done rest) (hqueue : d.queue ≠ []) :
    ∃ rest', (after ⟨d, .collecting deadline batch, notes⟩ (d.setQueue [])
      (.collecting deadline (batch ++ d.queue))).Coalesced lag w done rest' := by
  obtain ⟨x, xs, rfl, rfl, rfl⟩ := h.exists_cons
  have hnotes : notes = done.flatMap Batch.notes ++ (x :: xs).map .received := h.notes_eq
  have hcollects : Collects lag w _ x xs := h.collecting
  let new := d.queue.map fun c => (⟨d.now, c, d.store⟩ : Receipt)
  have hnew : ∀ y ∈ new, y.moment = d.now := by
    intro y hy
    obtain ⟨c, -, rfl⟩ := List.mem_map.mp hy
    rfl
  have hchanges : new.map Receipt.change = d.queue := by
    rw [List.map_map]
    exact List.map_id _
  have hreceived : (d.queue.map fun c => Note.received ⟨d.now, c, d.store⟩) =
      new.map Note.received := List.map_map.symm
  refine ⟨x :: (xs ++ new), ?_⟩
  exact {
    notes_eq := by
      rw [after, Stage.noted_more hqueue, hnotes, hreceived, List.append_assoc, ← List.map_append]
      rfl
    chronological := h.chronological_after
    past := h.past_after rfl
    timely := h.timely
    spaced := h.spaced
    later := by
      refine ⟨h.later.1, fun b hb y hy => ?_⟩
      rw [← List.cons_append] at hy
      rcases List.mem_append.mp hy with hy | hy
      · exact h.later.2 b hb y hy
      · rw [hnew y hy]
        exact h.start_le hb
    collecting := by
      refine ⟨?_, hcollects.now_le, fun l hl y hy => ?_⟩
      · rw [← List.cons_append, List.map_append, hchanges]
        rfl
      · rcases List.mem_append.mp hy with hy | hy
        · exact hcollects.within l hl y hy
        · rw [hnew y hy]
          exact hcollects.now_le l hl }

theorem Coalesced.due {deadline : Nat} {batch : List Change}
    (h : Coalesced lag w ⟨d, .collecting deadline batch, notes⟩ done rest) (hqueue : d.queue = [])
    (hdue : deadline ≤ d.now) :
    ∃ done', (after ⟨d, .collecting deadline batch, notes⟩ d.beginRecompute.1
      (d.refreshing .change)).Coalesced lag w done' [] := by
  obtain ⟨x, xs, rfl, rfl, rfl⟩ := h.exists_cons
  have hnotes : notes = done.flatMap Batch.notes ++ (x :: xs).map .received := h.notes_eq
  let b : Batch := ⟨x, xs, ⟨d.now, d.resolved, d.store, d.queue⟩⟩
  have htimely : b.Timely lag w := ⟨h.collecting.within, hdue, hqueue⟩
  have hspaced : ∀ a ∈ done, a.start.moment + w ≤ d.now := by
    intro a ha
    have hfirst : a.start.moment ≤ x.moment := h.later.2 a ha x List.mem_cons_self
    omega
  refine ⟨done ++ [b], ?_⟩
  exact {
    notes_eq := by
      rw [after, Stage.noted_begin rfl, hnotes, List.flatMap_append]
      simp [b, Batch.notes, Batch.receipts]
    chronological := h.chronological_after
    past := h.past_after rfl
    timely := List.forall_mem_append.mpr ⟨h.timely, List.forall_mem_singleton.mpr htimely⟩
    spaced := List.pairwise_append.mpr ⟨h.spaced, List.pairwise_singleton _ _,
      fun a ha _ hb => List.mem_singleton.mp hb ▸ hspaced a ha⟩
    later := ⟨List.pairwise_append.mpr ⟨h.later.1, List.pairwise_singleton _ _,
      fun a ha _ hb => List.mem_singleton.mp hb ▸ h.later.2 a ha⟩,
      fun _ _ _ hx => absurd hx List.not_mem_nil⟩
    collecting := nofun }

theorem Coalesced.concludes {moment : Nat} {found : Except Failure Resolution} {o : Offer}
    {next : Pause} (h : Coalesced lag w ⟨d, .refreshing moment found o next, notes⟩ done rest)
    (hnow : d'.now = d.now) :
    (after ⟨d, .refreshing moment found o next, notes⟩ d'
      (.waiting next)).Coalesced lag w done [] := by
  obtain rfl := h.rest_eq_nil nofun
  exact {
    notes_eq := (List.append_nil notes).trans h.notes_eq
    chronological := h.chronological_after
    past := h.past_after hnow
    timely := h.timely
    spaced := h.spaced
    later := h.later
    collecting := nofun }

/-- **A step of the loop keeps batches.** -/
theorem Coalesced.loop {g : Stage} (h : Coalesced lag w ⟨d, g, notes⟩ done rest)
    (hw : d.reloader.window = w) (hg : g.ByChanges) (hgoes : g.Goes d d' g') :
    ∃ done' rest', (after ⟨d, g, notes⟩ d' g').Coalesced lag w done' rest' := by
  cases hgoes with
  | first hqueue => exact ⟨done, _, h.first hw hqueue⟩
  | more hqueue => exact ⟨done, h.more hqueue⟩
  | due hqueue hdue =>
    obtain ⟨done', h'⟩ := h.due hqueue hdue
    exact ⟨done', [], h'⟩
  | tick hdue => cases hg
  | concludes hdue => exact ⟨done, [], h.concludes rfl⟩

/-- Time may pass, beyond the end of a window by the lag of the timer only. -/
theorem Coalesced.elapse {g : Stage} (h : Coalesced lag w ⟨d, g, notes⟩ done rest)
    (hle : d.now ≤ d'.now) (hlag : ∀ l ∈ lag, ∀ deadline batch, g = .collecting deadline batch →
      d.now ≤ deadline + l → d'.now ≤ deadline + l) :
    Coalesced lag w ⟨d', g, notes⟩ done rest where
  notes_eq := h.notes_eq
  chronological := h.chronological
  past a ha := Nat.le_trans (h.past a ha) hle
  timely := h.timely
  spaced := h.spaced
  later := h.later
  collecting := by
    cases rest with
    | nil => exact h.collecting
    | cons x xs =>
      have hcollects : Collects lag w ⟨d, g, notes⟩ x xs := h.collecting
      exact ⟨hcollects.stage_eq, fun l hl =>
        hlag l hl _ _ hcollects.stage_eq (hcollects.now_le l hl), hcollects.within⟩

end Steps

end LoopRun

/-! ### Whole runs -/

namespace Reloader

/-- What the rules of a reloader resolve to in a store. -/
def resolvedIn (r : Reloader) (s : Store) : Except Failure Resolution :=
  resolve s.cluster r.options r.settings.space r.rules

theorem window_eq_of_terms {r r' : Reloader} (h : r'.terms = r.terms) : r'.window = r.window :=
  congrArg (fun t : Settings × Options × List Rule => t.1.debounce.ceilMillis) h

theorem resolvedIn_eq_of_terms {r r' : Reloader} (h : r'.terms = r.terms) (s : Store) :
    r'.resolvedIn s = r.resolvedIn s :=
  congrArg (fun t : Settings × Options × List Rule => resolve s.cluster t.2.1 t.1.space t.2.2) h

end Reloader

namespace LoopRun

variable {lag : Option Nat} {w : Nat} {r : LoopRun}

/-- A recomputation begins in the store as it is, and resolves the rules there. -/
theorem resolved_of_mem_noted {d d' : Deployment} {g g' : Stage} (h : g.Goes d d' g') {y : Onset}
    (hy : .began y ∈ g.noted g' d d') :
    y.store = d.store ∧ y.found = d.reloader.resolvedIn d.store := by
  have hbegan : y ∈ g'.began d := by
    rcases List.mem_append.mp hy with hy | hy
    · obtain ⟨c, -, hy⟩ := List.mem_map.mp hy
      cases hy
    · obtain ⟨z, hz, hy⟩ := List.mem_map.mp hy
      cases hy
      exact hz
  cases h with
  | first hqueue => cases hbegan
  | more hqueue => cases hbegan
  | due hqueue hdue =>
    rw [List.mem_singleton.mp hbegan]
    exact ⟨rfl, rfl⟩
  | tick hdue =>
    rw [List.mem_singleton.mp hbegan]
    exact ⟨rfl, rfl⟩
  | concludes hdue => cases hbegan

/-- What every run of a loop keeps that waits for changes. -/
structure Orderly (lag : Option Nat) (r₀ : Reloader) (r : LoopRun) : Prop where
  byChanges : r.stage.ByChanges
  terms : r.deployment.reloader.terms = r₀.terms
  resolved : ∀ y, .began y ∈ r.notes → y.found = r₀.resolvedIn y.store
  coalesced : ∃ done rest, r.Coalesced lag r₀.window done rest

theorem orderly_begin (lag : Option Nat) (d : Deployment) : (begin d).Orderly lag d.reloader :=
  ⟨rfl, rfl, fun _ hy => absurd hy List.not_mem_nil, [], [], coalesced_begin lag _ d⟩

theorem Orderly.step {outside : Deployment → Deployment → Prop}
    (hsilent : ∀ d d', outside d d' → Silent d d') {r₀ : Reloader} {r' : LoopRun}
    (h : r.Orderly lag r₀) (hstep : Step lag outside r r') : r'.Orderly lag r₀ := by
  obtain ⟨hg, hterms, hresolved, done, rest, hbatches⟩ := h
  cases hstep with
  | loop hgo =>
    have hgoes := Stage.goes_of_advance hgo
    refine ⟨hgoes.byChanges hg, hgoes.onward.terms.trans hterms, fun y hy => ?_,
      hbatches.loop (Reloader.window_eq_of_terms hterms) hg hgoes⟩
    rcases List.mem_append.mp hy with hy | hy
    · exact hresolved y hy
    · obtain ⟨hstore, hfound⟩ := resolved_of_mem_noted hgoes hy
      rw [hfound, hstore, Reloader.resolvedIn_eq_of_terms hterms]
  | outside hd =>
    obtain ⟨hnow, hterms'⟩ := hsilent _ _ hd
    exact ⟨hg, hterms'.trans hterms, hresolved, done, rest,
      hbatches.elapse (Nat.le_of_eq hnow.symm) fun _ _ _ _ _ hle =>
        Nat.le_trans (Nat.le_of_eq hnow) hle⟩
  | clock hle hlag =>
    exact ⟨hg, hterms, hresolved, done, rest,
      hbatches.elapse hle fun l hl _ _ hg _ => hlag l hl _ _ hg⟩

theorem Orderly.reached {outside : Deployment → Deployment → Prop}
    (hsilent : ∀ d d', outside d d' → Silent d d') {d : Deployment}
    (h : Reached lag outside (begin d) r) : r.Orderly lag d.reloader := by
  induction h with
  | refl => exact orderly_begin lag d
  | tail _ hstep ih => exact ih.step hsilent hstep

end LoopRun

/-! ### What recomputations see -/

/-- The store in which a recomputation resolves the rules shows a change that was received before.
The event that the change reports was signalled when it was received, what was signalled is not
forgotten, and the object is as the last event about it left it: that is as the change left it, or
as a later event did. -/
structure Receipt.SeenBy (x : Receipt) (y : Onset) : Prop where
  signalled : x.store.Signalled x.change
  feed : x.store.feed <+: y.store.feed
  latest : y.store.objects.get? x.change.key =
    (y.store.lastEvent? x.change.key).bind Event.object?
  reflected : y.store.Reflects x.change

/-- A recomputation that comes after a change sees it. -/
def Note.Sees : Note → Note → Prop
  | .received x, .began y => x.SeenBy y
  | _, _ => True

theorem Note.sees_received (a : Note) (x : Receipt) : a.Sees (.received x) := by
  cases a <;> trivial

theorem Note.began_sees (y : Onset) (b : Note) : (began y).Sees b := trivial

namespace LoopRun

/-- Every change that was received is signalled in the store, and every recomputation that came
after it saw it. -/
structure Informed (r : LoopRun) : Prop where
  traced : r.deployment.Traced
  signalled : ∀ x, .received x ∈ r.notes →
    x.store.Signalled x.change ∧ x.store.feed <+: r.deployment.store.feed
  sees : r.notes.Pairwise Note.Sees

variable {r : LoopRun}

theorem informed_begin {d : Deployment} (h : d.Traced) : (begin d).Informed where
  traced := h
  signalled _ hx := absurd hx List.not_mem_nil
  sees := .nil

/-- What leads onward, without the loop doing anything, leaves a run informed. -/
theorem Informed.onward (h : r.Informed) {d' : Deployment} (hd : r.deployment.Onward d') :
    Informed { r with deployment := d' } where
  traced := hd.traced h.traced
  signalled x hx := (h.signalled x hx).imp_right fun hfeed => hfeed.trans hd.feed
  sees := h.sees

/-- What a step of the loop receives is signalled. -/
theorem signalled_of_mem_noted {d d' : Deployment} {g g' : Stage} (hd : d.Traced) {x : Receipt}
    (hx : .received x ∈ g.noted g' d d') : x.store = d.store ∧ d.store.Signalled x.change := by
  rcases List.mem_append.mp hx with hx | hx
  · obtain ⟨c, hc, hx⟩ := List.mem_map.mp hx
    cases hx
    refine ⟨rfl, ?_⟩
    have hqueue := g.received_subset d d' hc
    rw [Deployment.queue] at hqueue
    split at hqueue
    · rename_i w hw
      exact (hd.watcher w hw).queue c hqueue
    · exact absurd hqueue List.not_mem_nil
  · obtain ⟨y, -, hy⟩ := List.mem_map.mp hx
    cases hy

/-- In a chronicled store a recomputation sees whatever was signalled. -/
theorem seenBy_of_chronicled {s : Store} (hs : s.Chronicled) {x : Receipt}
    (hx : x.store.Signalled x.change ∧ x.store.feed <+: s.feed) {y : Onset} (hy : y.store = s) :
    x.SeenBy y := by
  subst hy
  exact ⟨hx.1, hx.2, hs x.change.key, hs.reflects (hx.1.mono hx.2.subset)⟩

/-- **A step of the loop leaves a run informed**: what it receives is signalled, and a recomputation
that it begins sees all that was received before. -/
theorem Informed.loop (h : r.Informed) {d' : Deployment} {g' : Stage}
    (hgoes : r.stage.Goes r.deployment d' g') : (r.after d' g').Informed := by
  have hnew : ∀ x, .received x ∈ r.stage.noted g' r.deployment d' →
      x.store.Signalled x.change ∧ x.store.feed <+: r.deployment.store.feed := by
    intro x hx
    obtain ⟨hstore, hsignalled⟩ := signalled_of_mem_noted h.traced hx
    rw [hstore]
    exact ⟨hsignalled, List.prefix_rfl⟩
  have hsees : ∀ a : Note, (∀ x, a = .received x → x.store.Signalled x.change ∧
      x.store.feed <+: r.deployment.store.feed) →
      ∀ b ∈ r.stage.noted g' r.deployment d', a.Sees b := by
    intro a ha b hb
    cases b with
    | received x => exact a.sees_received x
    | began y =>
      cases a with
      | received x =>
        exact seenBy_of_chronicled h.traced.chronicled (ha x rfl) (resolved_of_mem_noted hgoes hb).1
      | began y' => exact Note.began_sees y' _
  exact {
    traced := hgoes.onward.traced h.traced
    signalled := by
      intro x hx
      rcases List.mem_append.mp hx with hx | hx
      · exact (h.signalled x hx).imp_right fun hfeed => hfeed.trans hgoes.onward.feed
      · exact (hnew x hx).imp_right fun hfeed => hfeed.trans hgoes.onward.feed
    sees := List.pairwise_append.mpr ⟨h.sees,
      List.pairwise_of_forall_mem_list fun a ha b hb =>
        hsees a (fun x hx => hnew x (hx ▸ ha)) b hb,
      fun a ha b hb => hsees a (fun x hx => h.signalled x (hx ▸ ha)) b hb⟩ }

theorem Informed.step {lag : Option Nat} (h : r.Informed) {r' : LoopRun}
    (hstep : Step lag Beside r r') : r'.Informed := by
  cases hstep with
  | loop hgo => exact h.loop (Stage.goes_of_advance hgo)
  | outside hd => exact h.onward hd.onward
  | clock hle hlag => exact h.onward (Deployment.onward_of_eq rfl rfl)

theorem Informed.reached {lag : Option Nat} {r₀ : LoopRun} (h₀ : r₀.Informed)
    (h : Reached lag Beside r₀ r) : r.Informed := by
  induction h with
  | refl => exact h₀
  | tail _ hstep ih => exact ih.step hstep

end LoopRun

/-- **Changes are traced in every state in which a loop can begin.** -/
theorem Deployment.Prepared.traced {d : Deployment} (h : d.Prepared) : d.Traced := by
  induction h with
  | @start settings options rules history reply d h =>
    obtain ⟨hstore, o, hstart⟩ := System.start_eq_ok h
    obtain ⟨res, x, -, -, -, hreloader⟩ := Reloader.start_eq_ok.mp hstart
    refine ⟨hstore ▸ Store.chronicled_after history, fun w hw => ?_⟩
    rw [hreloader] at hw
    rcases Reloader.watcher_conclude _ _ _ with hnone | ⟨i, hnew⟩
    · rw [hnone] at hw
      cases hw
    · exact Reloader.traced_watcherFor (hnew.symm.trans hw)
  | act _ a ih => exact (Deployment.onward_act _ a).traced ih
  | pass _ millis ih => exact (Deployment.onward_pass _ millis).traced ih
  | recompute _ ih => exact (Deployment.onward_recompute _).traced ih
  | ran _ hr ih =>
    exact ⟨((LoopRun.informed_begin ih).reached hr).traced.chronicled, nofun⟩

/-- **Changes are coalesced, and the recomputation misses none of them.** Whatever happens beside
the loop, however long recomputations take, and however late its timer is: the changes that the loop
receives fall into batches. A batch is the first change together with all others that are received
before its recomputation begins, up to and including the end of the window, or no later than the
timer can be late. One recomputation follows each batch, at the end of its window or later and when
no change waits, and two recomputations begin no less than a window apart. If the reloader reads
from a store, the rules are resolved in a state of it that shows every change received before: the
object is as the change left it, or as a later one did. -/
theorem LoopRun.debounced {lag : Option Nat} {outside : Deployment → Deployment → Prop}
    (hsilent : ∀ d d', outside d d' → Silent d d') {d : Deployment} {r : LoopRun}
    (h : Reached lag outside (begin d) r) :
    (∃ done rest, r.Coalesced lag d.reloader.window done rest ∧
      ∀ x ∈ rest.head?, r.GoesOn d.reloader.window x) ∧
    ((∀ d d', outside d d' → Beside d d') → d.Prepared →
      r.notes.Pairwise Note.Sees ∧
        ∀ y, .began y ∈ r.notes → y.found = d.reloader.resolvedIn y.store) := by
  have horderly := Orderly.reached hsilent h
  refine ⟨?_, fun hbeside hd => ⟨?_, horderly.resolved⟩⟩
  · obtain ⟨done, rest, hbatches⟩ := horderly.coalesced
    refine ⟨done, rest, hbatches, fun x hx => ?_⟩
    cases rest with
    | nil => cases hx
    | cons y ys =>
      obtain rfl : y = x := Option.some.inj hx
      have hcollects : Collects lag _ r y ys := hbatches.collecting
      exact hcollects.goesOn
  · exact ((informed_begin hd.traced).reached (h.mono hbeside)).sees

/-! ### A sample -/

namespace LoopRun

/-- Changes are collected for 50 milliseconds. -/
def sampleSettings : Settings := { Settings.standard with debounce := .ofMillis 50 }

/-- The labels of a config map. -/
def sampleLabels : Labels := .ofList [("app", "demo")]

/-- A rule that picks the config maps with these labels. -/
def sampleRules : List Rule := [⟨.configMap, .labelled sampleLabels, none, none, none⟩]

/-- What is done to the store so that there is one. -/
def samplePut : Store.Step :=
  .put ⟨.configMap, "default", "app"⟩ sampleLabels (.ofList [("a", "1")])

/-- The start of a reloader beside an empty store. -/
def sampleStart : Except Failure Deployment :=
  Deployment.start sampleSettings .standard sampleRules (.after []) .accept

/-- A reloader that has started beside an empty store. -/
def sample : Deployment :=
  sampleStart.toOption.getD
    ⟨0, ∅, .idle sampleSettings .standard sampleRules, .accept, [], ∅⟩

/-- The first config map with the labels is put into the store, and the interest changes with the
recomputation that follows, so that the config map is reported again. -/
def refining : List Move :=
  [.deed .settle, .clock 10, .deed (.store samplePut), .deed .settle, .loop, .clock 60, .loop,
    .loop, .deed .settle, .loop]

/-- What this leads to. -/
def refined : LoopRun := ((begin sample).moves? refining).getD (begin sample)

theorem prepared_sample : sample.Prepared := by
  have hstart : sampleStart.isOk = true := by decide +kernel
  cases h : sampleStart with
  | error f =>
    rw [h] at hstart
    cases hstart
  | ok d =>
    have hd : sample = d := by rw [sample, h]; rfl
    rw [hd]
    exact .start h

theorem reached_refined : Reached (some 0) Beside (begin sample) refined :=
  reached_getD_moves? (by decide +kernel)

/-- Whether a recomputation is all there is between two changes a window apart. -/
def isAtWindowEnd (w : Nat) : List Note → Bool
  | [.received x, .began _, .received z] => z.moment == x.moment + w
  | _ => false

theorem exists_of_isAtWindowEnd {w : Nat} {l : List Note} (h : isAtWindowEnd w l = true) :
    ∃ x y z, l = [.received x, .began y, .received z] ∧ z.moment = x.moment + w := by
  unfold isAtWindowEnd at h
  split at h
  · next x y z => exact ⟨x, y, z, rfl, eq_of_beq h⟩
  · cases h

/-- A change starts a batch, the recomputation begins at the end of the window, and another change
is received at the same moment. -/
theorem notes_refined : ∃ x y z, refined.notes = [.received x, .began y, .received z] ∧
    z.moment = x.moment + sample.reloader.window :=
  exists_of_isAtWindowEnd (by decide +kernel)

/-- There is only one way in which such notes fall into batches. -/
theorem eq_of_notes {x z : Receipt} {y : Onset} {done : List Batch} {rest : List Receipt}
    (h : [.received x, .began y, .received z] =
      done.flatMap Batch.notes ++ rest.map Note.received) : done = [⟨x, [], y⟩] ∧ rest = [z] := by
  cases done with
  | nil => rcases rest with _ | ⟨a, _ | ⟨b, rest⟩⟩ <;> simp at h
  | cons b done =>
    obtain ⟨first, further, start⟩ := b
    cases further with
    | cons a further => simp [Batch.notes, Batch.receipts] at h
    | nil =>
      cases done with
      | cons b done => simp [Batch.notes, Batch.receipts] at h
      | nil =>
        rcases rest with _ | ⟨a, _ | ⟨b, rest⟩⟩ <;> simp_all [Batch.notes, Batch.receipts]

theorem debounced_refined : sample.Prepared ∧ Reached (some 0) Beside (begin sample) refined ∧
    ∃ b z, refined.Coalesced (some 0) sample.reloader.window [b] [z] ∧
      refined.GoesOn sample.reloader.window z ∧ refined.notes.Pairwise Note.Sees ∧
      b.start.found = sample.reloader.resolvedIn b.start.store := by
  obtain ⟨⟨done, rest, hbatches, hgoes⟩, hstore⟩ :=
    debounced (fun _ _ h => h.silent) reached_refined
  obtain ⟨hsees, hfound⟩ := hstore (fun _ _ h => h) prepared_sample
  obtain ⟨x, y, z, hnotes, -⟩ := notes_refined
  obtain ⟨rfl, rfl⟩ := eq_of_notes (hnotes.symm.trans hbatches.notes_eq)
  exact ⟨prepared_sample, reached_refined, ⟨x, [], y⟩, z, hbatches, hgoes z rfl, hsees,
    hfound y (hnotes ▸ List.mem_cons_of_mem _ List.mem_cons_self)⟩

/-- Whatever is received up to and including the end of the window of a batch belongs to the
batch. -/
def Inclusive (w : Nat) (done : List Batch) (rest : List Receipt) : Prop :=
  AfterStart (fun b x => b.first.moment + w < x.moment) done rest

/-- Not all that is received in the window of a batch belongs to it: the new watcher reports the
config map in the millisecond in which the window ends, when the recomputation has begun. -/
theorem exists_received_after_start : sample.Prepared ∧
    Reached (some 0) Beside (begin sample) refined ∧
    ¬ ∃ done rest, refined.notes = done.flatMap Batch.notes ++ rest.map .received ∧
      Inclusive sample.reloader.window done rest := by
  refine ⟨prepared_sample, reached_refined, ?_⟩
  rintro ⟨done, rest, hsplit, -, hrest⟩
  obtain ⟨x, y, z, hnotes, hmoment⟩ := notes_refined
  obtain ⟨rfl, rfl⟩ := eq_of_notes (hnotes.symm.trans hsplit)
  have hlate : x.moment + sample.reloader.window < z.moment :=
    hrest _ List.mem_cons_self z List.mem_cons_self
  omega

end LoopRun

end LiveConfig
