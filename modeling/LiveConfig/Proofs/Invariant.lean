import LiveConfig.Proofs.Reloading
import LiveConfig.Proofs.System

/-!
# What every run keeps

The reloader watches what it is interested in, every watch task follows the store, and what the loop
is doing agrees with the interest and the current properties. This is kept by every move, whatever
is done to the store and to the streams.

When nothing is left to be done, the reloader knows what the store holds. An object of concern that
exists is remembered by a watch task with its version; nothing was forwarded since the last
resolution began, so that version was given out before, and hence the object was there, as it is
now, when the rules were resolved. So the last resolution missed nothing that exists.

## Main definitions

* `System.Inv` — what every run keeps
* `System.Settled` — what holds of all tasks unless changes are on their way to the loop
* `System.Answers` — what is known of a store that answered a request of the last resolution

## Main results

* `System.inv_of_reached` — the invariant holds in every state that a run leads to
* `System.answered_of_reached` — what is known of the stores that answered the last resolution
* `System.Inv.agrees` — the last resolution missed nothing that exists
* `System.Inv.settles` — if the rules can be resolved now, the last resolution succeeded
-/

namespace LiveConfig

open Watch

namespace System

/-! ### Properties of all watch tasks -/

/-- Changes are on their way to the loop. -/
def Ahead (w : Watcher) : Prop := w.queue ≠ [] ∨ ∃ t ∈ w.tasks, t.inFlight ≠ []

/-- All watch tasks have a property. -/
def AllTasks (P : Interest → Store → Task → Prop) (s : System) : Prop :=
  ∀ w, s.reloader.watcher = some w → ∀ t ∈ w.tasks, P w.interest s.store t

/-- All watch tasks have a property, unless changes are on their way. -/
def Settled (P : Interest → Store → Task → Prop) (s : System) : Prop :=
  ∀ w, s.reloader.watcher = some w → Ahead w ∨ ∀ t ∈ w.tasks, P w.interest s.store t

/-- A move keeps a property of watch tasks: a new task has it, and it survives what the move does.
Of a step of a task `N` may be assumed. -/
structure Keeps (s : System) (m : Move) (N : Task → Task → Prop)
    (P : Interest → Store → Task → Prop) : Prop where
  congr : ∀ {i s₁ s₂ t}, s₂.objects = s₁.objects → s₂.version = s₁.version → s₂.feed = s₁.feed →
    P i s₁ t → P i s₂ t
  new : ∀ i c b, P i s.store (.new c b)
  perform : ∀ {x w t}, m = .store x → s.reloader.watcher = some w → t ∈ w.tasks →
    P w.interest s.store t → P w.interest (s.store.perform x).1 t
  does : ∀ {n now w t t' s' sent}, m = .task n now → s.reloader.watcher = some w →
    w.tasks[n]? = some t → t.Does w.interest s.store t' s' sent → N t t' →
    P w.interest s.store t → P w.interest s' t'

variable {s t : System} {m : Move} {N : Task → Task → Prop} {P : Interest → Store → Task → Prop}

/-- The tasks of a watcher that takes over have not begun. -/
theorem tasks_watcherFor {r : Reloader} {i : Interest} {w : Watcher}
    (hw : r.watcherFor i = some w) : w.interest = i ∧ w.queue = [] ∧
      ∀ t ∈ w.tasks, ∃ c b, t = .new c b := by
  unfold Reloader.watcherFor at hw
  split at hw
  · cases hw
    refine ⟨rfl, rfl, fun t ht => ?_⟩
    obtain ⟨c, -, rfl⟩ := List.mem_map.mp ht
    exact ⟨c, _, rfl⟩
  · cases hw

theorem AllTasks.steps (h : s.AllTasks P) (hP : Keeps s m (fun _ _ => True) P)
    (hs : Steps s m t) : t.AllTasks P := by
  cases hs with
  | store x => exact fun w hw u hu => hP.perform rfl hw hu (h w hw u hu)
  | @task n now w u u' store sent hw hu hdoes =>
    rintro _ ⟨⟩ v hv
    obtain ⟨hobjects, hversion, hfeed⟩ := hdoes.store_eq
    rcases List.mem_or_eq_of_mem_set hv with hv | rfl
    · exact hP.congr hobjects hversion hfeed (h w hw v hv)
    · exact hP.does (w := w) rfl hw hu hdoes trivial (h w hw u (List.mem_of_getElem? hu))
  | conclude hwork =>
    rename_i found o
    intro w hw u hu
    rcases s.reloader.watcher_conclude found o with hsame | ⟨i, hnew⟩
    · exact h w (hsame ▸ hw) u hu
    · obtain ⟨-, -, hbegun⟩ := tasks_watcherFor (hnew ▸ hw)
      obtain ⟨c, b, rfl⟩ := hbegun u hu
      exact hP.new _ c b
  | take hwork hw hqueue =>
    rintro _ ⟨⟩ u hu
    exact h _ hw u hu
  | _ => exact h

/-- Changes stay on their way until they are taken, and a task that remembers something else puts
one on its way. -/
theorem ahead_of_does {w : Watcher} {n : Nat} {u u' : Task} {store store' : Store}
    {sent : List Change} (hu : w.tasks[n]? = some u)
    (hdoes : u.Does w.interest store u' store' sent)
    (h : Ahead w ∨ u'.follower.memory ≠ u.follower.memory) :
    Ahead { w with tasks := w.tasks.set n u', queue := w.queue ++ sent } := by
  have hn : n < w.tasks.length := (List.getElem?_eq_some_iff.mp hu).1
  have hmem : u' ∈ w.tasks.set n u' := List.mem_set hn u'
  rcases hdoes.news with ⟨hsame, hsent⟩ | ⟨e, sub, sub', -, -, -, -, -, hnone, hsome⟩
  · rcases h with (hqueue | ⟨v, hv, hflight⟩) | hmemory
    · exact Or.inl (List.append_ne_nil_of_left_ne_nil hqueue sent)
    · obtain ⟨j, hj⟩ := List.mem_iff_getElem?.mp hv
      by_cases hjn : j = n
      · subst hjn
        obtain rfl : u = v := Option.some.inj (hu.symm.trans hj)
        by_cases hnone : sent = []
        · rw [← hsent, hnone, List.nil_append] at hflight
          exact Or.inr ⟨u', hmem, hflight⟩
        · exact Or.inl (List.append_ne_nil_of_right_ne_nil w.queue hnone)
      · refine Or.inr ⟨v, ?_, hflight⟩
        refine List.mem_iff_getElem?.mpr ⟨j, ?_⟩
        rw [List.getElem?_set_ne (Ne.symm hjn)]
        exact hj
    · exact absurd hsame hmemory
  · exact Or.inr ⟨u', hmem, by rw [hsome]; exact List.cons_ne_nil _ _⟩

theorem Settled.steps (h : s.Settled P)
    (hP : Keeps s m (fun t t' => t'.follower.memory = t.follower.memory) P) (hm : m ≠ .take)
    (hs : Steps s m t) : t.Settled P := by
  cases hs with
  | store x =>
    exact fun w hw => (h w hw).imp_right fun h u hu => hP.perform rfl hw hu (h u hu)
  | @task n now w u u' store sent hw hu hdoes =>
    rintro _ ⟨⟩
    by_cases hahead : Ahead w ∨ u'.follower.memory ≠ u.follower.memory
    · exact Or.inl (ahead_of_does hu hdoes hahead)
    · rw [not_or] at hahead
      have hsettled := (h w hw).resolve_left hahead.1
      obtain ⟨hobjects, hversion, hfeed⟩ := hdoes.store_eq
      refine Or.inr fun v hv => ?_
      rcases List.mem_or_eq_of_mem_set hv with hv | rfl
      · exact hP.congr hobjects hversion hfeed (hsettled v hv)
      · exact hP.does (w := w) rfl hw hu hdoes (Classical.not_not.mp hahead.2)
          (hsettled u (List.mem_of_getElem? hu))
  | conclude hwork =>
    rename_i found o
    intro w hw
    rcases s.reloader.watcher_conclude found o with hsame | ⟨i, hnew⟩
    · exact h w (hsame ▸ hw)
    · obtain ⟨-, -, hbegun⟩ := tasks_watcherFor (hnew ▸ hw)
      refine Or.inr fun u hu => ?_
      obtain ⟨c, b, rfl⟩ := hbegun u hu
      exact hP.new _ c b
  | take hwork hw hqueue => exact absurd rfl hm
  | _ => exact h

/-! ### What every run keeps -/

/-- A watch task follows the store, and what it remembers has been given out. -/
def Followed (i : Interest) (s : Store) (t : Task) : Prop :=
  (∃ s₀ m₀, t.Follows i s₀ m₀ s) ∧ t.follower.memory.IssuedBy s.version

theorem follows_congr {i : Interest} {s₀ s₁ s₂ : Store} {m₀ : Memory} {t : Task}
    (hobjects : s₂.objects = s₁.objects) (hversion : s₂.version = s₁.version)
    (hfeed : s₂.feed = s₁.feed) (h : t.Follows i s₀ m₀ s₁) : t.Follows i s₀ m₀ s₂ :=
  fun sub hsub => (h sub hsub).congr hobjects hversion hfeed

theorem version_le_perform (s : Store) (x : Store.Step) : s.version ≤ (s.perform x).1.version :=
  ((Store.Precedes.refl s).perform x).version_le

theorem issuedBy_new (n : Nat) (c : Scope) (b : Backoff) :
    (Task.new c b).follower.memory.IssuedBy n := fun h => nomatch h

theorem keeps_followed (hs : s.store.Sound) (m : Move) :
    Keeps s m (fun _ _ => True) Followed where
  congr := by
    rintro i s₁ s₂ t hobjects hversion hfeed ⟨⟨s₀, m₀, hf⟩, hissued⟩
    exact ⟨⟨s₀, m₀, follows_congr hobjects hversion hfeed hf⟩, hversion ▸ hissued⟩
  new i c b := ⟨⟨s.store, ∅, nofun⟩, issuedBy_new _ c b⟩
  perform := by
    rintro x w t - - - ⟨⟨s₀, m₀, hf⟩, hissued⟩
    exact ⟨⟨s₀, m₀, fun sub hsub => (hf sub hsub).perform x⟩,
      hissued.mono (version_le_perform s.store x)⟩
  does := by
    rintro n now w t t' s' sent - - - hdoes - ⟨⟨s₀, m₀, hf⟩, hissued⟩
    exact ⟨⟨_, _, hdoes.follows hs hf⟩, hdoes.issuedBy hf hissued⟩

/-- What the loop is doing agrees with the reloader. -/
def Consistent (r : Reloader) : Work → Prop
  | .resolving _ => r.trigger.current.isSome = true → r.Informed
  | .refreshing found o =>
    (∃ reply, o = r.offer found reply) ∧ ((∃ res, found = .ok res) ∨ r.Informed)
  | .pausing found => r.Reflects found
  | .collecting found _ => r.Reflects found

/-- **What every run keeps**, whatever is done to the store and to the streams. -/
structure Inv (settings : Settings) (options : Options) (rules : List Rule) (s : System) :
    Prop where
  sound : s.store.Sound
  settings_eq : s.reloader.settings = settings
  options_eq : s.reloader.options = options
  rules_eq : s.reloader.rules = rules
  watches : s.reloader.Watches
  followed : s.AllTasks Followed
  consistent : Consistent s.reloader s.work

theorem store_steps (hs : Steps s m t) : (∃ x, m = .store x ∧ t.store = (s.store.perform x).1) ∨
    (∀ x, m ≠ .store x) ∧ t.store.objects = s.store.objects ∧ t.store.version = s.store.version ∧
      t.store.feed = s.store.feed := by
  cases hs with
  | store x => exact Or.inl ⟨x, rfl, rfl⟩
  | task hw hu hdoes => exact Or.inr ⟨nofun, hdoes.store_eq⟩
  | _ => exact Or.inr ⟨nofun, rfl, rfl, rfl⟩

theorem sound_steps (h : s.store.Sound) (hs : Steps s m t) : t.store.Sound := by
  rcases store_steps hs with ⟨x, -, hx⟩ | ⟨-, hobjects, hversion, hfeed⟩
  · rw [hx]
    exact h.perform x
  · exact h.congr hobjects hversion hfeed

theorem watches_setWatcher {r : Reloader} (h : r.Watches) {w : Watcher} (hw : r.watcher = some w)
    {tasks : List Task} (htasks : tasks.map (·.follower.scope) = w.tasks.map (·.follower.scope))
    (queue : List Change) :
    ({ r with watcher := some { w with tasks := tasks, queue := queue } } : Reloader).Watches := by
  rw [Reloader.Watches, hw] at h
  exact ⟨h.1, htasks.trans h.2⟩

theorem watches_steps (h : s.reloader.Watches) (hmode : s.reloader.settings.mode = .event)
    (hs : Steps s m t) : t.reloader.Watches := by
  cases hs with
  | @task n now w u u' store sent hw hu hdoes =>
    refine watches_setWatcher h hw ?_ _
    refine List.ext_getElem? fun j => ?_
    rw [List.getElem?_map, List.getElem?_map]
    by_cases hj : n = j
    · subst hj
      obtain ⟨hlt, hget⟩ := List.getElem?_eq_some_iff.mp hu
      rw [List.getElem?_set_self hlt, hu, Option.map_some, Option.map_some, hdoes.scope_eq]
    · rw [List.getElem?_set_ne hj]
  | conclude hwork => exact h.conclude hmode _ _
  | take hwork hw hqueue => exact watches_setWatcher h hw rfl _
  | _ => exact h

theorem goesOn_cases {r : Reloader} {found : Except Failure Resolution} {reply : Reply}
    (h : goesOn r found reply = true) :
    r.trigger.current.isSome = true ∨ ∃ res, found = .ok res := by
  rw [goesOn, Bool.or_eq_true] at h
  refine h.imp_right fun hstart => ?_
  cases hr : Reloader.start r.settings r.options r.rules found reply with
  | error f => rw [hr] at hstart; cases hstart
  | ok p =>
    obtain ⟨res, -, hres, -⟩ := Reloader.start_eq_ok.mp hr
    exact ⟨res, hres⟩

/-- Consistency is not about watchers. -/
theorem consistent_setWatcher {r : Reloader} {work : Work} (h : Consistent r work)
    (w : Option Watcher) : Consistent { r with watcher := w } work := by
  cases work with
  | resolving asked => exact h
  | refreshing found o => exact h
  | pausing found => exact ⟨h.informed, h.interest_eq, h.properties_eq⟩
  | collecting found batch => exact ⟨h.informed, h.interest_eq, h.properties_eq⟩

theorem consistent_steps (h : Consistent s.reloader s.work) (hs : Steps s m t) :
    Consistent t.reloader t.work := by
  cases hs with
  | store x => exact h
  | task hw hu hdoes => exact consistent_setWatcher h _
  | ask hwork =>
    rw [hwork] at h
    exact h
  | @hand asked reply hwork hgo =>
    rw [hwork] at h
    refine ⟨⟨reply, rfl⟩, ?_⟩
    exact (goesOn_cases hgo).elim (fun hstarted => Or.inr (h hstarted)) Or.inl
  | conclude hwork =>
    rw [hwork] at h
    obtain ⟨⟨reply, rfl⟩, hinformed⟩ := h
    exact Reloader.reflects_conclude hinformed
  | @take found batch w c cs hwork hw hqueue =>
    have h := consistent_setWatcher h (some { w with queue := cs })
    rcases hwork with ⟨hwork, -⟩ | hwork <;> rw [hwork] at h
    · exact h
    · exact h
  | begin hwork =>
    rcases hwork with hwork | ⟨batch, hwork⟩ <;> rw [hwork] at h
    · exact fun _ => h.informed
    · exact fun _ => h.informed

theorem rules_steps (hs : Steps s m t) : t.reloader.settings = s.reloader.settings ∧
    t.reloader.options = s.reloader.options ∧ t.reloader.rules = s.reloader.rules := by
  cases hs with
  | conclude hwork => exact s.reloader.settings_conclude _ _
  | _ => exact ⟨rfl, rfl, rfl⟩

variable {settings : Settings} {options : Options} {rules : List Rule}

theorem inv_initial (settings : Settings) (options : Options) (rules : List Rule)
    (history : List Store.Step) : (initial settings options rules history).Inv settings options
      rules where
  sound := Store.sound_after history
  settings_eq := rfl
  options_eq := rfl
  rules_eq := rfl
  watches := rfl
  followed := nofun
  consistent := nofun

theorem Inv.steps (h : s.Inv settings options rules) (hmode : settings.mode = .event)
    (hs : Steps s m t) : t.Inv settings options rules := by
  obtain ⟨hsettings, hoptions, hrules⟩ := rules_steps hs
  exact {
    sound := sound_steps h.sound hs
    settings_eq := hsettings.trans h.settings_eq
    options_eq := hoptions.trans h.options_eq
    rules_eq := hrules.trans h.rules_eq
    watches := watches_steps h.watches (h.settings_eq ▸ hmode) hs
    followed := h.followed.steps (keeps_followed h.sound m) hs
    consistent := consistent_steps h.consistent hs }

theorem inv_of_reached (hmode : settings.mode = .event) {allowed : System → Move → Prop}
    {history : List Store.Step}
    (h : Reached allowed (initial settings options rules history) s) :
    s.Inv settings options rules := by
  induction h with
  | refl => exact inv_initial settings options rules history
  | move _ _ ht ih => exact ih.steps hmode (steps_of_step ht)

/-! ### Stores that answered -/

/-- What the rules resolved to was answered by stores with a property. -/
def AnsweredBy (Q : Store → Prop) (r : Reloader) (found : Except Failure Resolution) : Prop :=
  ∃ h : Nat → Store, (∀ n, Q (h n)) ∧
    found = resolvedOver h r.options r.settings.space r.rules

/-- All stores that answered a request of the last resolution have a property. Once changes are
collected that resolution does not count any more. -/
def Answered (Q : Store → Prop) (r : Reloader) : Work → Prop
  | .resolving asked => ∀ h ∈ asked, Q h
  | .refreshing found _ => AnsweredBy Q r found
  | .pausing found => AnsweredBy Q r found
  | .collecting _ _ => True

theorem AnsweredBy.mono {Q Q' : Store → Prop} {r r' : Reloader}
    {found : Except Failure Resolution} (h : AnsweredBy Q r found) (hQ : ∀ x, Q x → Q' x)
    (hr : r'.settings = r.settings ∧ r'.options = r.options ∧ r'.rules = r.rules) :
    AnsweredBy Q' r' found := by
  obtain ⟨h, hh, hfound⟩ := h
  refine ⟨h, fun n => hQ _ (hh n), ?_⟩
  rw [hr.1, hr.2.1, hr.2.2]
  exact hfound

/-- A property of stores that the present store has, and that moves keep, is one of the stores that
answered. Only taking changes need not keep it. -/
theorem answered_steps {Q : System → Store → Prop} (h : Answered (Q s) s.reloader s.work)
    (hpresent : Q s s.store) (hkeep : m ≠ .take → ∀ x, Q s x → Q t x) (hs : Steps s m t) :
    Answered (Q t) t.reloader t.work := by
  have hrules := rules_steps hs
  have hmono : m ≠ .take → ∀ {work}, Answered (Q s) s.reloader work →
      Answered (Q t) t.reloader work := by
    intro hm work hwork
    cases work with
    | resolving asked => exact fun x hx => hkeep hm x (hwork x hx)
    | refreshing found o => exact hwork.mono (hkeep hm) hrules
    | pausing found => exact hwork.mono (hkeep hm) hrules
    | collecting found batch => trivial
  cases hs with
  | store x => exact hmono nofun h
  | task hw hu hdoes => exact hmono nofun h
  | @ask asked hwork =>
    rw [hwork] at h
    intro x hx
    rcases List.mem_append.mp hx with hx | hx
    · exact hkeep nofun x (h x hx)
    · rw [List.mem_singleton.mp hx]
      exact hkeep nofun _ hpresent
  | @hand asked reply hwork hgo =>
    rw [hwork] at h
    refine ⟨fun n => asked.getD n s.store, fun n => hkeep nofun _ ?_, rfl⟩
    change Q s (asked.getD n s.store)
    rw [List.getD_eq_getElem?_getD]
    cases hn : asked[n]? with
    | none => exact hpresent
    | some x => exact h x (List.mem_of_getElem? hn)
  | @conclude found o hwork =>
    have h := hmono nofun h
    rw [hwork] at h
    exact h
  | take hwork hw hqueue => trivial
  | begin hwork => exact nofun

/-- What is known of a store that answered: it was there before, and since then nothing was
forwarded, unless it is still on its way. -/
structure Answers (s : System) (x : Store) : Prop where
  sound : x.Sound
  precedes : x.Precedes s.store
  settled : s.Settled fun _ _ t => t.follower.memory.IssuedBy x.version

theorem Inv.answers (h : s.Inv settings options rules) : s.Answers s.store where
  sound := h.sound
  precedes := .refl _
  settled := fun w hw => Or.inr fun u hu => (h.followed w hw u hu).2

theorem precedes_steps {x : Store} (h : x.Precedes s.store) (hs : Steps s m t) :
    x.Precedes t.store := by
  rcases store_steps hs with ⟨y, -, hy⟩ | ⟨-, hobjects, hversion, -⟩
  · rw [hy]
    exact h.perform y
  · exact ⟨hversion ▸ h.version_le, fun ho => h.object (hobjects ▸ ho)⟩

theorem keeps_issuedBy (s : System) (m : Move) (n : Nat) :
    Keeps s m (fun t t' => t'.follower.memory = t.follower.memory)
      fun _ _ t => t.follower.memory.IssuedBy n where
  congr _ _ _ h := h
  new _ c b := issuedBy_new n c b
  perform _ _ _ h := h
  does _ _ _ _ hsame h := by rwa [hsame]

theorem Answers.steps {x : Store} (h : s.Answers x) (hm : m ≠ .take) (hs : Steps s m t) :
    t.Answers x where
  sound := h.sound
  precedes := precedes_steps h.precedes hs
  settled := h.settled.steps (keeps_issuedBy s m x.version) hm hs

theorem answered_of_reached {allowed : System → Move → Prop} {Q : System → Store → Prop}
    {history : List Store.Step}
    (hpresent : ∀ {s}, Reached allowed (initial settings options rules history) s → Q s s.store)
    (hkeep : ∀ {s t m}, Reached allowed (initial settings options rules history) s → allowed s m →
      Steps s m t → m ≠ .take → ∀ x, Q s x → Q t x)
    (h : Reached allowed (initial settings options rules history) s) :
    Answered (Q s) s.reloader s.work := by
  induction h with
  | refl => exact nofun
  | move hs hm ht ih =>
    have hsteps := steps_of_step ht
    exact answered_steps ih (hpresent hs) (hkeep hs hm hsteps) hsteps

/-! ### Nothing left to be done -/

/-- There is a task for every object of concern. -/
theorem task_of_covers (h : s.reloader.Watches) {k : ObjectKey} {labels : Labels}
    (hk : s.reloader.interest.covers k (some labels) = true) :
    ∃ w u, s.reloader.watcher = some w ∧ w.interest = s.reloader.interest ∧ u ∈ w.tasks ∧
      u.follower.scope = k.scope := by
  rw [Reloader.Watches] at h
  cases hw : s.reloader.watcher with
  | none =>
    rw [hw] at h
    exact absurd (h.symm.trans (Interest.isEmpty_eq_false_of_covers hk)) (by decide)
  | some w =>
    rw [hw] at h
    have hscope := Interest.scope_mem_of_covers hk
    rw [← h.2] at hscope
    obtain ⟨u, hu, hscope⟩ := List.mem_map.mp hscope
    exact ⟨w, u, rfl, h.1, hu, hscope⟩

theorem ahead_eq_nil_of_idle {i : Interest} {s₀ s : Store} {m₀ : Memory} {u : Task}
    (hf : u.Follows i s₀ m₀ s) (hidle : Idle s u) :
    ∃ sub, u.stream? = some sub ∧ Watch.Follows i s₀ m₀ s u.follower sub ∧
      sub.ahead s.feed = [] := by
  obtain ⟨sub, ha, hpending⟩ := hidle
  have hsub : u.stream? = some sub := by rw [Task.stream?, ha]
  have hf := hf sub hsub
  exact ⟨sub, hsub, hf, (hf.live.next_pending (Prod.ext hpending rfl)).1⟩

/-- An object of concern that exists is remembered by a task. -/
theorem Inv.memory_of_exists (h : s.Inv settings options rules) (hq : s.Quiescent) {k : ObjectKey}
    {x : Object} (hx : s.store.objects.get? k = some x)
    (hk : s.reloader.interest.covers k (some x.labels) = true) :
    ∃ w u, s.reloader.watcher = some w ∧ u ∈ w.tasks ∧ u.follower.scope = k.scope ∧
      u.follower.memory.get? k = some (some x.version) := by
  obtain ⟨w, u, hw, hinterest, hu, hscope⟩ := task_of_covers h.watches hk
  obtain ⟨s₀, m₀, hf⟩ := (h.followed w hw u hu).1
  obtain ⟨sub, -, hf, hahead⟩ := ahead_eq_nil_of_idle hf ((hq.2 w hw).2 u hu)
  exact ⟨w, u, hw, hu, hscope, hf.memory_of_exists hahead hscope.symm hx (hinterest ▸ hk)⟩

theorem not_ahead_of_quiescent (hq : s.Quiescent) {w : Watcher}
    (hw : s.reloader.watcher = some w) : ¬ Ahead w := by
  rintro (hqueue | ⟨u, hu, hflight⟩)
  · exact hqueue (hq.2 w hw).1
  · obtain ⟨sub, ha, -⟩ := (hq.2 w hw).2 u hu
    exact hflight (by rw [Task.inFlight, ha])

/-- **The last resolution missed nothing that exists**: an object of concern was there, as it is
now, whenever the rules asked for it. -/
theorem Inv.agrees (h : s.Inv settings options rules) (hq : s.Quiescent) {hist : Nat → Store}
    (hh : ∀ n, s.Answers (hist n)) : Agrees hist s.store s.reloader.interest where
  history n := (hh n).sound.keyed
  keyed := h.sound.keyed
  fresh := by
    intro n k x hx hk
    obtain ⟨w, u, hw, hu, -, hmem⟩ := h.memory_of_exists hq hx hk
    have hissued := ((hh n).settled w hw).resolve_left (not_ahead_of_quiescent hq hw) u hu hmem
    exact (hh n).precedes.get?_of_issued hx (Nat.le_refl _) hissued

/-- What is known of the last resolution when nothing is left to be done. -/
structure Settles (Q : Store → Prop) (settings : Settings) (options : Options) (rules : List Rule)
    (s : System) (res : Resolution) (hist : Nat → Store) : Prop where
  work_eq : s.work = .pausing (.ok res)
  answered : ∀ n, Q (hist n)
  resolved : resolvedOver hist options settings.space rules = .ok res
  interest_eq : s.reloader.interest = .ofRules options settings.space rules res
  properties_eq : ∀ {x}, res.snapshot = .ok x →
    s.reloader.trigger.current.map Snapshot.properties = some x.properties

theorem Inv.interestIn_eq (h : s.Inv settings options rules)
    (hmaps : settings.monitorConfigMaps = true) (hsecrets : settings.monitorSecrets = true)
    (res : Resolution) :
    s.reloader.interestIn res = .ofRules options settings.space rules res := by
  rw [Reloader.interestIn, h.settings_eq, h.options_eq, h.rules_eq, Settings.monitored, hmaps,
    hsecrets, Interest.restrict_monitored]

/-- **If the rules can be resolved now, the last resolution succeeded.** -/
theorem Inv.settles (h : s.Inv settings options rules) (hq : s.Quiescent)
    (hmaps : settings.monitorConfigMaps = true) (hsecrets : settings.monitorSecrets = true)
    {Q : Store → Prop} (hQ : ∀ x, Q x → s.Answers x) (hanswered : Answered Q s.reloader s.work)
    {res : Resolution} (hres : resolve s.store.cluster options settings.space rules = .ok res) :
    ∃ res₀ hist, s.Settles Q settings options rules res₀ hist := by
  obtain ⟨found, hwork⟩ := hq.1
  have hconsistent := h.consistent
  rw [hwork] at hanswered hconsistent
  obtain ⟨hist, hh, hfound⟩ := hanswered
  rw [h.options_eq, h.settings_eq, h.rules_eq] at hfound
  obtain ⟨res', hinformed⟩ := hconsistent.informed
  have hrules : ∀ r ∈ rules, s.reloader.interest.Declares options settings.space r := by
    intro r hr
    rw [hinformed, h.interestIn_eq hmaps hsecrets]
    exact Interest.declares_ofRules hr res'
  obtain ⟨res₀, hres₀⟩ :=
    (h.agrees hq fun n => hQ _ (hh n)).resolvedOver_succeeds hrules hres
  have hfound₀ := hfound.trans hres₀
  refine ⟨res₀, hist, hwork.trans (congrArg _ hfound₀), hh, hres₀, ?_, ?_⟩
  · rw [hconsistent.interest_eq hfound₀, h.interestIn_eq hmaps hsecrets]
  · exact hconsistent.properties_eq hfound₀

/-- If nothing that the last resolution found is gone, the rules resolve to the same now. -/
theorem Settles.resolve_eq {Q : Store → Prop} {res : Resolution} {hist : Nat → Store}
    (hs : s.Settles Q settings options rules res hist) (h : s.Inv settings options rules)
    (hq : s.Quiescent) (hQ : ∀ x, Q x → s.Answers x)
    (hkept : ∀ k, res.objects.contains k = true → s.store.objects.contains k = true) :
    resolve s.store.cluster options settings.space rules = .ok res := by
  have hagrees := h.agrees hq fun n => hQ _ (hs.answered n)
  rw [hs.interest_eq] at hagrees
  exact hagrees.resolve_eq (fun r hr => Interest.declares_ofRules hr res) hs.resolved
    (fun k hk => Interest.contains_ofRules options settings.space rules hk) hkept

end System

end LiveConfig
