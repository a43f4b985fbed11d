import LiveConfig.Deployment
import LiveConfig.Proofs.Reloading
import LiveConfig.Proofs.TaskSteps
import LiveConfig.Proofs.Turns

/-!
# Where changes come from

The feed of a store is a chronicle: an object is always as the last event about it left it. Whatever
a watch task forwards was read from a stream, and all that a stream reports stands in the feed, also
what existed when the stream was opened. So a change that is in the queue, or on its way there,
reports an event of the feed; the object that it is about is as this event left it, or as a later
one did.

## Main definitions

* `Store.Chronicled` — every object is as the last event about it left it
* `Store.Signalled` — a change reports an event of the feed
* `Store.Reflects` — the object of a change is as the change left it, or as a later event did
* `Deployment.Traced` — all changes that are on their way to the loop report events of the feed
* `Deployment.Onward` — what a later deployment owes to an earlier one

## Main results

* `Store.Chronicled.perform` — stores are chronicled, whatever is done to them
* `Store.Chronicled.reflects` — and so they reflect whatever was signalled
* `Watch.Task.Does.traced` — a task forwards what it read from the feed
* `Deployment.onward_settle`, `Deployment.onward_conclude` — turns of the tasks and recomputations
  leave changes traced
-/

namespace LiveConfig

open Watch

/-! ### The chronicle of a store -/

/-- The event of a signal. -/
def Signal.event? : Signal → Option Event
  | .event e => some e
  | .disconnect => none

theorem Signal.eq_event_of_event? {x : Signal} {e : Event} (h : x.event? = some e) :
    x = .event e := by
  cases x with
  | event e' => exact congrArg _ (Option.some.inj h)
  | disconnect => cases h

namespace Store

/-- The last event that was signalled about an object. -/
def lastEvent? (s : Store) (k : ObjectKey) : Option Event :=
  lastAbout Event.key k (s.feed.filterMap Signal.event?)

/-- Every object is as the last event about it left it. -/
def Chronicled (s : Store) : Prop := ∀ k, s.objects.get? k = (s.lastEvent? k).bind Event.object?

/-- A change reports an event of the feed. -/
def Signalled (s : Store) (c : Change) : Prop := ∃ e, .event e ∈ s.feed ∧ Change.ofEvent e = c

/-- A change reports an event of the feed, and its object is as this event left it, or as a later
one about it did. -/
def Reflects (s : Store) (c : Change) : Prop :=
  ∃ past e later, s.feed = past ++ .event e :: later ∧ Change.ofEvent e = c ∧
    ∃ e', (e' = e ∨ .event e' ∈ later) ∧ e'.key = c.key ∧ s.objects.get? c.key = e'.object?

variable {s t : Store}

theorem lastEvent?_records {e : Event} (h : s.Records t e) (k : ObjectKey) :
    t.lastEvent? k = if k = e.key then some e else s.lastEvent? k := by
  rw [lastEvent?, h.feed, List.filterMap_append, lastAbout_append]
  by_cases hk : k = e.key
  · simp [Signal.event?, lastAbout_singleton, hk]
  · simp [Signal.event?, lastAbout_singleton, hk, Ne.symm hk, lastEvent?]

theorem lastEvent?_disconnect (s : Store) (k : ObjectKey) :
    s.disconnect.lastEvent? k = s.lastEvent? k := by
  rw [lastEvent?, disconnect, signal, List.filterMap_append, lastAbout_append]
  rfl

theorem chronicled_empty : (∅ : Store).Chronicled := fun _ => rfl

theorem Chronicled.records {e : Event} (hs : s.Chronicled) (h : s.Records t e) :
    t.Chronicled := by
  intro k
  rw [h.objects, lastEvent?_records h]
  split
  · rfl
  · exact hs k

theorem Chronicled.disconnect (hs : s.Chronicled) : s.disconnect.Chronicled := by
  intro k
  rw [lastEvent?_disconnect]
  exact hs k

/-- **The feed is a chronicle**, whatever is done to the store. -/
theorem Chronicled.perform (hs : s.Chronicled) (x : Step) : (s.perform x).1.Chronicled :=
  perform_induction (fun h _ hs => hs.records h) (fun _ hs => hs.disconnect) hs

/-- Only the objects and the feed of a store matter. -/
theorem Chronicled.congr (hs : s.Chronicled) (hobjects : t.objects = s.objects)
    (hfeed : t.feed = s.feed) : t.Chronicled := by
  intro k
  rw [hobjects, lastEvent?, hfeed]
  exact hs k

theorem chronicled_after (xs : List Step) : (after xs).Chronicled := by
  have hfold : ∀ (l : List Step) (s : Store), s.Chronicled →
      (l.foldl (fun s x => (s.perform x).1) s).Chronicled := by
    intro l
    induction l with
    | nil => exact fun s hs => hs
    | cons x l ih => exact fun s hs => ih _ (hs.perform x)
  exact hfold xs ∅ chronicled_empty

/-- What exists was signalled. -/
theorem Chronicled.mem_feed (hs : s.Chronicled) {k : ObjectKey} {o : Object}
    (ho : s.objects.get? k = some o) : .event (.applied o) ∈ s.feed := by
  rw [hs k] at ho
  obtain ⟨e, he, heo⟩ := Option.bind_eq_some_iff.mp ho
  obtain ⟨x, hx, hxe⟩ := List.mem_filterMap.mp (lastAbout_eq_some he).1
  cases e with
  | deleted k' => cases heo
  | applied o' =>
    cases heo
    rwa [Signal.eq_event_of_event? hxe] at hx

theorem Signalled.mono {c : Change} (h : s.Signalled c) (hfeed : s.feed ⊆ t.feed) :
    t.Signalled c := by
  obtain ⟨e, he, hc⟩ := h
  exact ⟨e, hfeed he, hc⟩

/-- **What was signalled is reflected** by a store whose feed is a chronicle. -/
theorem Chronicled.reflects (hs : s.Chronicled) {c : Change} (hc : s.Signalled c) :
    s.Reflects c := by
  obtain ⟨e, he, rfl⟩ := hc
  obtain ⟨past, later, hfeed⟩ := List.append_of_mem he
  have hlast : s.lastEvent? e.key =
      (lastAbout Event.key e.key (later.filterMap Signal.event?)).or (some e) := by
    rw [lastEvent?, hfeed, List.filterMap_append,
      List.filterMap_cons_some (show Signal.event? (.event e) = some e from rfl),
      List.append_cons, lastAbout_append, lastAbout_append, lastAbout_singleton, if_pos rfl,
      Option.some_or]
  refine ⟨past, e, later, hfeed, rfl, ?_⟩
  rw [Change.key_ofEvent, hs e.key, hlast]
  cases hlater : lastAbout Event.key e.key (later.filterMap Signal.event?) with
  | none => exact ⟨e, Or.inl rfl, rfl, rfl⟩
  | some e' =>
    obtain ⟨hmem, hkey⟩ := lastAbout_eq_some hlater
    obtain ⟨signal, hsignal, he'⟩ := List.mem_filterMap.mp hmem
    rw [Signal.eq_event_of_event? he'] at hsignal
    exact ⟨e', Or.inr hsignal, hkey, rfl⟩

theorem feed_prefix_perform (s : Store) (x : Step) : s.feed <+: (s.perform x).1.feed := by
  obtain ⟨l, hl, -⟩ := s.feed_perform x
  exact ⟨l, hl.symm⟩

end Store

/-! ### Streams and tasks -/

/-- A stream that has not broken and reports nothing but events of the feed. -/
structure Subscription.Backed (feed : List Signal) (sub : Subscription) : Prop where
  live : ∃ c, sub.Live feed c
  ahead : ∀ e ∈ sub.ahead feed, .event e ∈ feed

namespace Subscription

theorem backed_opened {s : Store} (hs : s.Chronicled) (c : Scope) :
    (s.opened c).Backed s.feed where
  live := ⟨c, s.live_opened c⟩
  ahead := by
    rw [Store.ahead_opened]
    intro e he
    obtain ⟨o, ho, rfl⟩ := List.mem_map.mp he
    obtain ⟨k, hk⟩ := SortedMap.mem_values.mp (Store.mem_objectsIn.mp ho).1
    exact hs.mem_feed hk

theorem Backed.append {feed : List Signal} {sub : Subscription} (h : sub.Backed feed)
    (l : List Signal) : sub.Backed (feed ++ l) := by
  obtain ⟨c, hlive⟩ := h.live
  refine ⟨⟨c, hlive.append l⟩, fun e he => ?_⟩
  rw [ahead_append hlive.position_le] at he
  rcases List.mem_append.mp he with he | he
  · exact List.mem_append_left l (h.ahead e he)
  · obtain ⟨x, hx, hxe⟩ := List.mem_filterMap.mp he
    rw [← Signal.eq_event_of_eventIn hxe]
    exact List.mem_append_right feed hx

/-- An event that is read stands in the feed. -/
theorem Backed.next_event {feed : List Signal} {sub sub' : Subscription} {e : Event}
    (h : sub.Backed feed) (hnext : sub.next feed = (.event e, sub')) :
    .event e ∈ feed ∧ sub'.Backed feed := by
  obtain ⟨c, hlive⟩ := h.live
  obtain ⟨hahead, hlive', -⟩ := hlive.next_event hnext
  refine ⟨h.ahead e (by rw [hahead]; exact List.mem_cons_self), ⟨c, hlive'⟩, fun e' he' => ?_⟩
  exact h.ahead e' (by rw [hahead]; exact List.mem_cons_of_mem e he')

theorem Backed.next_pending {feed : List Signal} {sub sub' : Subscription}
    (h : sub.Backed feed) (hnext : sub.next feed = (.pending, sub')) : sub'.Backed feed := by
  obtain ⟨c, hlive⟩ := h.live
  obtain ⟨-, hnil, hlive', -⟩ := hlive.next_pending hnext
  exact ⟨⟨c, hlive'⟩, by rw [hnil]; exact fun _ he => nomatch he⟩

end Subscription

namespace Watch

/-- What a task is about to forward reports an event of the feed, and so does all that it has still
to read. -/
structure Task.Traced (s : Store) (t : Task) : Prop where
  inFlight : ∀ c ∈ t.inFlight, s.Signalled c
  stream : ∀ sub, t.stream? = some sub → sub.Backed s.feed

/-- All changes that a watcher has for the loop report events of the feed, and so does all that its
tasks have still to read. -/
structure Watcher.Traced (s : Store) (w : Watcher) : Prop where
  queue : ∀ c ∈ w.queue, s.Signalled c
  tasks : ∀ t ∈ w.tasks, t.Traced s

namespace Task

theorem traced_new (s : Store) (c : Scope) (b : Backoff) : (new c b).Traced s := ⟨nofun, nofun⟩

theorem Traced.grow {s s' : Store} {t : Task} (h : t.Traced s) (hfeed : s.feed <+: s'.feed) :
    t.Traced s' := by
  obtain ⟨l, hl⟩ := hfeed
  refine ⟨fun c hc => (h.inFlight c hc).mono (hl ▸ List.subset_append_left _ _), fun sub hsub => ?_⟩
  rw [← hl]
  exact (h.stream sub hsub).append l

/-- **A task forwards what it read from the feed.** -/
theorem Does.traced {i : Interest} {s s' : Store} {t t' : Task} {sent : List Change}
    (h : t.Does i s t' s' sent) (hs : s.Chronicled) (ht : t.Traced s) :
    (∀ c ∈ sent, s'.Signalled c) ∧ t'.Traced s' := by
  obtain ⟨-, -, hfeed⟩ := h.store_eq
  have hreading : ∀ {sub}, t.activity = .reading sub → sub.Backed s.feed := fun ha =>
    ht.stream _ (by rw [stream?, ha])
  have hforwarded : ∀ c ∈ sent ++ t'.inFlight, s'.Signalled c := by
    intro c hc
    rw [Store.Signalled, hfeed]
    rcases h.news with ⟨-, hsent⟩ | ⟨e, sub, sub', ha, hnext, -, -, rfl, -, hflight⟩
    · exact ht.inFlight c (hsent ▸ hc)
    · obtain rfl : c = .ofEvent e := List.mem_singleton.mp (hflight ▸ hc)
      exact ⟨e, ((hreading ha).next_event hnext).1, rfl⟩
  refine ⟨fun c hc => hforwarded c (List.mem_append_left _ hc),
    fun c hc => hforwarded c (List.mem_append_right _ hc), ?_⟩
  rw [hfeed]
  intro u hu
  cases h with
  | opens ha =>
    cases hu
    exact Subscription.backed_opened hs _
  | loses _ _ _ hnone => rcases hnone with rfl | ⟨m, rfl⟩ <;> cases hu
  | forwards ha hnext _ =>
    cases hu
    exact ((hreading ha).next_event hnext).2
  | ignores ha hnext _ _ =>
    cases hu
    exact ((hreading ha).next_event hnext).2
  | rests ha hnext =>
    cases hu
    exact (hreading ha).next_pending hnext
  | sends ha =>
    cases hu
    exact ht.stream _ (by rw [stream?, ha])
  | wakes ha => cases hu
  | waits => exact ht.stream u hu

end Task

namespace Watcher

theorem traced_spawn (s : Store) (i : Interest) (b : Backoff) : (spawn i b).Traced s := by
  refine ⟨nofun, fun t ht => ?_⟩
  obtain ⟨c, -, rfl⟩ := List.mem_map.mp ht
  exact Task.traced_new s c b

theorem Traced.grow {s s' : Store} {w : Watcher} (h : w.Traced s) (hfeed : s.feed <+: s'.feed) :
    w.Traced s' :=
  ⟨fun c hc => (h.queue c hc).mono hfeed.subset, fun t ht => (h.tasks t ht).grow hfeed⟩

/-- Tasks add nothing to the feed. -/
theorem keptBySteps_feed (feed : List Signal) : KeptBySteps fun _ s => s.feed = feed where
  step _ h := (Task.does_step ..).store_eq.2.2.trans h
  perm _ h := h

/-- Changes stay traced while tasks take steps. -/
theorem keptBySteps_traced : KeptBySteps fun w s => s.Chronicled ∧ w.Traced s where
  step := by
    rintro w t ts s now ⟨hs, htraced⟩
    have hdoes := Task.does_step w.interest now w.hasRoom s t
    obtain ⟨hobjects, -, hfeed⟩ := hdoes.store_eq
    obtain ⟨ht, hts⟩ := List.forall_mem_cons.mp htraced.tasks
    obtain ⟨hsent, ht'⟩ := hdoes.traced hs ht
    have hgrow : s.feed <+: (t.step w.interest now w.hasRoom s).store.feed :=
      ⟨[], (List.append_nil _).trans hfeed.symm⟩
    refine ⟨hs.congr hobjects hfeed, fun c hc => ?_, List.forall_mem_cons.mpr ⟨ht', ?_⟩⟩
    · rcases List.mem_append.mp hc with hc | hc
      · exact (htraced.queue c hc).mono hgrow.subset
      · exact hsent c hc
    · exact fun u hu => (hts u hu).grow hgrow
  perm := by
    rintro i ts ts' cs s hperm ⟨hs, hqueue, htasks⟩
    exact ⟨hs, hqueue, fun t ht => htasks t (hperm.mem_iff.mpr ht)⟩

end Watcher

end Watch

/-! ### Deployments -/

/-- A watcher that takes over has no changes yet. -/
theorem Reloader.traced_watcherFor {r : Reloader} {i : Interest} {w : Watcher} {s : Store}
    (hw : r.watcherFor i = some w) : w.Traced s := by
  unfold watcherFor at hw
  split at hw
  · cases hw
    exact Watcher.traced_spawn s i _
  · cases hw

/-- What a reloader goes by, which never changes. -/
def Reloader.terms (r : Reloader) : Settings × Options × List Rule :=
  (r.settings, r.options, r.rules)

theorem Reloader.terms_conclude (r : Reloader) (found : Except Failure Resolution) (o : Offer) :
    (r.conclude found o).terms = r.terms := by
  obtain ⟨hsettings, hoptions, hrules⟩ := r.settings_conclude found o
  rw [terms, hsettings, hoptions, hrules, terms]

namespace Deployment

/-- The store is chronicled, and all changes that are on their way to the loop report events of its
feed. -/
structure Traced (d : Deployment) : Prop where
  chronicled : d.store.Chronicled
  watcher : ∀ w, d.reloader.watcher = some w → w.Traced d.store

/-- What a later deployment owes to an earlier one: changes are still traced, the feed has only
grown, and the reloader goes by the same terms. -/
structure Onward (d d' : Deployment) : Prop where
  traced : d.Traced → d'.Traced
  feed : d.store.feed <+: d'.store.feed
  terms : d'.reloader.terms = d.reloader.terms

variable {d d' : Deployment}

theorem Onward.refl (d : Deployment) : d.Onward d := ⟨id, List.prefix_rfl, rfl⟩

theorem Onward.trans (h : d.Onward d') {d'' : Deployment} (h' : d'.Onward d'') : d.Onward d'' :=
  ⟨h'.traced ∘ h.traced, h.feed.trans h'.feed, h'.terms.trans h.terms⟩

/-- Only the store and the reloader matter. -/
theorem onward_of_eq (hstore : d'.store = d.store) (hreloader : d'.reloader = d.reloader) :
    d.Onward d' where
  traced h := ⟨hstore ▸ h.chronicled, fun w hw => hstore ▸ h.watcher w (hreloader ▸ hw)⟩
  feed := ⟨[], by rw [hstore, List.append_nil]⟩
  terms := by rw [hreloader]

theorem onward_perform (d : Deployment) (x : Store.Step) : d.Onward (d.perform x).1 where
  traced h := ⟨h.chronicled.perform x,
    fun w hw => (h.watcher w hw).grow (d.store.feed_prefix_perform x)⟩
  feed := d.store.feed_prefix_perform x
  terms := rfl

/-- Whatever keeps what the steps of tasks keep. -/
theorem onward_of_steps {w w' : Watcher} (hw : d.reloader.watcher = some w)
    (hr : d'.reloader = { d.reloader with watcher := some w' })
    (hsteps : ∀ P : Watcher → Store → Prop, Watcher.KeptBySteps P → P w d.store → P w' d'.store) :
    d.Onward d' where
  traced h := by
    obtain ⟨hs, hw'⟩ := hsteps _ Watcher.keptBySteps_traced ⟨h.chronicled, h.watcher w hw⟩
    refine ⟨hs, fun v hv => ?_⟩
    rw [hr] at hv
    cases hv
    exact hw'
  feed := ⟨[], (List.append_nil _).trans
    (hsteps _ (Watcher.keptBySteps_feed d.store.feed) rfl).symm⟩
  terms := by rw [hr]; rfl

/-- **Turns of the tasks** leave changes traced. -/
theorem onward_settle (d : Deployment) : d.Onward d.settle := by
  rw [settle]
  split
  · exact .refl d
  · rename_i w hw
    exact onward_of_steps hw rfl fun P hP h => hP.settle d.now h

theorem onward_pass (d : Deployment) (millis : Nat) : d.Onward (d.pass millis) := by
  rw [pass]
  split
  · exact onward_of_eq rfl rfl
  · rename_i w hw
    exact onward_of_steps hw rfl fun P hP h => hP.pass d.now millis h

theorem onward_beginRecompute (d : Deployment) : d.Onward d.beginRecompute.1 :=
  onward_of_eq rfl rfl

/-- Changes are taken out of the queue. -/
theorem onward_setQueue {cs : List Change} (h : cs ⊆ d.queue) : d.Onward (d.setQueue cs) where
  traced ht := by
    refine ⟨ht.chronicled, fun w' hw' => ?_⟩
    obtain ⟨w, hw, rfl⟩ := Option.map_eq_some_iff.mp hw'
    have hqueue : d.queue = w.queue := by rw [queue, hw]
    have hw := ht.watcher w hw
    exact ⟨fun c hc => hw.queue c (hqueue ▸ h hc), hw.tasks⟩
  feed := List.prefix_rfl
  terms := rfl

/-- **The end of a recomputation** leaves changes traced: the watcher stays, or a new one takes over
that has none. -/
theorem onward_conclude (d : Deployment) (found : Except Failure Resolution) (o : Offer) :
    d.Onward { d with reloader := d.reloader.conclude found o } where
  traced h := by
    refine ⟨h.chronicled, fun w hw => ?_⟩
    rcases d.reloader.watcher_conclude found o with hsame | ⟨i, hnew⟩
    · exact h.watcher w (hsame ▸ hw)
    · exact Reloader.traced_watcherFor (hnew.symm.trans hw)
  feed := List.prefix_rfl
  terms := d.reloader.terms_conclude found o

theorem onward_recompute (d : Deployment) : d.Onward d.recompute.1 :=
  d.onward_beginRecompute.trans <| (onward_pass _ _).trans (onward_conclude _ _ _)

end Deployment

end LiveConfig
