import LiveConfig.Proofs.TaskSteps

/-!
# One task beside a store

A watch task beside a store to which anything may be done at any time: objects are put, touched and
deleted, streams are told to break, and the task takes its steps whenever it gets a turn. What the
task forwarded is kept in a log.

The memory of a task outlives its streams, and a new stream reports only what exists. So of an
object that exists the log says in the end what the store says; but an object that is deleted while
there is no stream, and is not put again, is never reported, and the log goes on saying that it
exists (`Lookout.Misses`).

## Main definitions

* `Lookout` — a store, a task and what the task forwarded
* `Lookout.Drained` — everything that the stream has to report was read
* `Lookout.Misses` — an object was deleted while there was no stream

## Main results

* `Lookout.lastForwarded` — what was forwarded last of each object of interest by key
* `Lookout.forwarded_stays` — a deletion between two streams is not forwarded
-/

namespace LiveConfig.Watch

/-- A store, a task that watches a scope of it, and what the task forwarded. -/
structure Lookout where
  store : Store
  task : Task
  log : List Change
  /-- The store and the log of when the last stream was opened. -/
  opened : Store × List Change

namespace Lookout

/-- Something happens to the store, or the task takes a step. -/
inductive Move where
  | store (x : Store.Step)
  | task (now : Nat) (room : Bool)

/-- A task that has not begun, beside a store. -/
def new (s : Store) (c : Scope) (b : Backoff) : Lookout := ⟨s, .new c b, [], (s, [])⟩

/-- What a move leads to. -/
def step (i : Interest) (s : Lookout) : Move → Lookout
  | .store x => { s with store := (s.store.perform x).1 }
  | .task now room =>
    let r := s.task.step i now room s.store
    { store := r.store
      task := r.task
      log := s.log ++ r.sent
      opened := if s.task.activity = .opening then (s.store, s.log) else s.opened }

/-- What moves lead to. -/
def run (i : Interest) (s : Lookout) (ms : List Move) : Lookout := ms.foldl (step i) s

/-- The task has a stream and has read everything that it reports. -/
def Drained (s : Lookout) : Prop :=
  ∃ sub, s.task.activity = .reading sub ∧ (sub.next s.store.feed).1 = .pending

/-- What was forwarded last of an object. -/
def last? (s : Lookout) (k : ObjectKey) : Option Change := lastAbout Change.key k s.log

/-- When the stream was opened an object was gone although it had been forwarded with a version, and
nothing happened to it since. -/
def Misses (s : Lookout) (k : ObjectKey) : Prop :=
  s.opened.1.objects.get? k = none ∧
    (∃ v, lastAbout Change.key k s.opened.2 = some ⟨k, some v⟩) ∧
    ∀ e, .event e ∈ s.store.feed.drop s.opened.1.feed.length → e.key ≠ k

/-! ### What a run keeps -/

/-- The version that a list of changes says an object has. -/
def versionIn (k : ObjectKey) (cs : List Change) : Option (Option String) :=
  (lastAbout Change.key k cs).map Change.version

theorem versionIn_eq_some {k : ObjectKey} {cs : List Change} {v : Option String}
    (h : versionIn k cs = some v) : lastAbout Change.key k cs = some ⟨k, v⟩ := by
  obtain ⟨c, hc, rfl⟩ := Option.map_eq_some_iff.mp h
  obtain rfl : c.key = k := (lastAbout_eq_some hc).2
  exact hc

theorem versionIn_append (k : ObjectKey) (cs ds : List Change) :
    versionIn k (cs ++ ds) = (versionIn k ds).or (versionIn k cs) := by
  rw [versionIn, versionIn, versionIn, lastAbout_append]
  cases lastAbout Change.key k ds <;> rfl

/-- A task goes on remembering of an object of interest what it forwarded or is about to. -/
theorem versionIn_of_does {i : Interest} {s s' : Store} {t t' : Task} {sent : List Change}
    (h : t.Does i s t' s' sent) {k : ObjectKey} (hk : i.keys.contains k = true) {log : List Change}
    (hlog : t.follower.memory.get? k = versionIn k (log ++ t.inFlight)) :
    t'.follower.memory.get? k = versionIn k (log ++ sent ++ t'.inFlight) := by
  rw [List.append_assoc]
  rcases h.news with ⟨hsame, hsent⟩ | ⟨e, sub, sub', -, -, hmem, -, rfl, ht, ht'⟩
  · rw [hsame, hsent, hlog]
  · rw [ht, List.append_nil] at hlog
    rw [ht', hmem, Memory.get?_observe, List.nil_append, versionIn_append, ← hlog, versionIn,
      lastAbout_singleton, Change.key_ofEvent]
    by_cases hke : k = e.key
    · subst hke
      rw [if_pos rfl, if_pos rfl, judged_of_key hk]
      rfl
    · rw [if_neg hke, if_neg (Ne.symm hke)]
      rfl

/-- The task follows the store, and remembers what it forwarded or is about to. -/
structure Follows (i : Interest) (c : Scope) (s : Lookout) : Prop where
  sound : s.store.Sound
  soundOpened : s.opened.1.Sound
  scope_eq : s.task.follower.scope = c
  logged : ∀ {k}, i.keys.contains k = true →
    s.task.follower.memory.get? k = versionIn k (s.log ++ s.task.inFlight)
  followed : ∃ m₀ : Memory, (∀ {k}, i.keys.contains k = true →
    m₀.get? k = versionIn k s.opened.2) ∧ s.task.Follows i s.opened.1 m₀ s.store

variable {i : Interest} {c : Scope} {s : Lookout}

theorem follows_new (history : List Store.Step) (i : Interest) (c : Scope) (b : Backoff) :
    (new (.after history) c b).Follows i c where
  sound := Store.sound_after history
  soundOpened := Store.sound_after history
  scope_eq := rfl
  logged _ := rfl
  followed := ⟨∅, fun _ => rfl, nofun⟩

theorem Follows.step_store (h : s.Follows i c) (x : Store.Step) :
    (s.step i (.store x)).Follows i c where
  sound := h.sound.perform x
  soundOpened := h.soundOpened
  scope_eq := h.scope_eq
  logged := h.logged
  followed := by
    obtain ⟨m₀, hm₀, hf⟩ := h.followed
    exact ⟨m₀, hm₀, fun sub hsub => (hf sub hsub).perform x⟩

theorem Follows.step_task (h : s.Follows i c) (now : Nat) (room : Bool) :
    (s.step i (.task now room)).Follows i c := by
  have hdoes := Task.does_step i now room s.store s.task
  obtain ⟨hobjects, hversion, hfeed⟩ := hdoes.store_eq
  obtain ⟨m₀, hm₀, hf⟩ := h.followed
  have hfollows := hdoes.follows h.sound hf
  have hlogged := fun {k} (hk : i.keys.contains k = true) =>
    versionIn_of_does hdoes hk (h.logged hk)
  have hsound := h.sound.congr hobjects hversion hfeed
  have hscope := hdoes.scope_eq.trans h.scope_eq
  by_cases ha : s.task.activity = .opening
  · rw [if_pos ha, if_pos ha] at hfollows
    have hopened : (s.step i (.task now room)).opened = (s.store, s.log) := if_pos ha
    refine ⟨hsound, ?_, hscope, hlogged, s.task.follower.memory, fun hk => ?_, ?_⟩
    · rw [hopened]
      exact h.sound
    · rw [hopened, h.logged hk, Task.inFlight, ha, List.append_nil]
    · rw [hopened]
      exact hfollows
  · rw [if_neg ha, if_neg ha] at hfollows
    have hopened : (s.step i (.task now room)).opened = s.opened := if_neg ha
    refine ⟨hsound, ?_, hscope, hlogged, m₀, ?_, ?_⟩
    · rw [hopened]
      exact h.soundOpened
    · rw [hopened]
      exact hm₀
    · rw [hopened]
      exact hfollows

theorem Follows.run (h : s.Follows i c) (ms : List Move) : (s.run i ms).Follows i c := by
  induction ms generalizing s with
  | nil => exact h
  | cons m ms ih =>
    cases m with
    | store x => exact ih (h.step_store x)
    | task now room => exact ih (h.step_task now room)

/-! ### What was forwarded in the end -/

/-- A drained stream has nothing left to report to a task that follows it. -/
theorem Follows.of_drained (h : s.Follows i c) (hd : s.Drained) :
    ∃ m₀ sub, (∀ {k}, i.keys.contains k = true → m₀.get? k = versionIn k s.opened.2) ∧
      Watch.Follows i s.opened.1 m₀ s.store s.task.follower sub ∧
      sub.ahead s.store.feed = [] := by
  obtain ⟨m₀, hm₀, hf⟩ := h.followed
  obtain ⟨sub, ha, hpending⟩ := hd
  have hfollows := hf sub (by rw [Task.stream?, ha])
  exact ⟨m₀, sub, hm₀, hfollows, (hfollows.live.next_pending (Prod.ext hpending rfl)).1⟩

/-- What is remembered of an object of interest is what was forwarded last, once the stream is
drained. -/
theorem Follows.memory_of_drained (h : s.Follows i c) (hd : s.Drained) {k : ObjectKey}
    (hi : i.keys.contains k = true) :
    s.task.follower.memory.get? k = versionIn k s.log := by
  obtain ⟨sub, ha, -⟩ := hd
  rw [h.logged hi, Task.inFlight, ha, List.append_nil]

theorem Follows.misses_iff (h : s.Follows i c) {k : ObjectKey} (hk : k.scope = c) :
    s.Misses k ↔ lastAbout Event.key k (heard s.opened.1 s.store c) = none ∧
      ∃ v, versionIn k s.opened.2 = some (some v) := by
  rw [lastAbout_heard_eq_none_iff h.soundOpened hk]
  constructor
  · rintro ⟨hgone, ⟨v, hv⟩, hquiet⟩
    exact ⟨⟨hgone, hquiet⟩, v, congrArg (Option.map Change.version) hv⟩
  · rintro ⟨⟨hgone, hquiet⟩, v, hv⟩
    exact ⟨hgone, ⟨v, versionIn_eq_some hv⟩, hquiet⟩

/-- If something was reported of an object that is gone, it can only be that it was deleted. -/
theorem Follows.versionIn_of_reported (h : s.Follows i c) (hd : s.Drained) {k : ObjectKey}
    (hk : k.scope = c) (hi : i.keys.contains k = true) (hgone : s.store.objects.get? k = none)
    {e : Event} (he : lastAbout Event.key k (heard s.opened.1 s.store c) = some e) :
    versionIn k s.log = some none := by
  obtain ⟨m₀, sub, -, hfollows, hahead⟩ := h.of_drained hd
  rw [← h.scope_eq] at hk he
  have hshows := hfollows.shows hk
  rw [hgone, he] at hshows
  obtain rfl : e.key = k := (lastAbout_eq_some he).2
  cases e with
  | applied o => cases hshows
  | deleted k' =>
    rw [← h.memory_of_drained hd hi, hfollows.memory_of_heard hahead he, judged_of_key hi]
    rfl

/-- If nothing was reported of an object, what counts is what had been forwarded before. -/
theorem Follows.versionIn_of_unreported (h : s.Follows i c) (hd : s.Drained) {k : ObjectKey}
    (hi : i.keys.contains k = true)
    (he : lastAbout Event.key k (heard s.opened.1 s.store c) = none) :
    versionIn k s.log = versionIn k s.opened.2 := by
  obtain ⟨m₀, sub, hm₀, hfollows, hahead⟩ := h.of_drained hd
  rw [← h.scope_eq] at he
  rw [← h.memory_of_drained hd hi, hfollows.memory_of_unheard hahead he, hm₀ hi]

/-- **What was forwarded last.** Whatever is done to a store and however a task takes its steps
beside it: once the task has a stream and has read all that it reports, of every object of its scope
that is of interest by key the last change that was forwarded carries the version that the object
has now; and if the object is gone although a version of it was forwarded, then the last change says
so, except if it was gone when the stream was opened and that had not been forwarded before. -/
theorem lastForwarded (i : Interest) (c : Scope) (b : Backoff) (history : List Store.Step)
    (ms : List Move) (s : Lookout) (hs : s = run i (new (.after history) c b) ms)
    (hd : s.Drained) (k : ObjectKey) (hk : k.scope = c) (hi : i.keys.contains k = true) :
    (∀ o, s.store.objects.get? k = some o → s.last? k = some ⟨k, some o.version⟩) ∧
      (s.store.objects.get? k = none → (∃ v, ⟨k, some v⟩ ∈ s.log) →
        (s.last? k = some ⟨k, none⟩ ↔ ¬ s.Misses k)) := by
  have h : s.Follows i c := hs ▸ (follows_new history i c b).run ms
  constructor
  · intro o ho
    obtain ⟨m₀, sub, -, hfollows, hahead⟩ := h.of_drained hd
    have hmem := hfollows.memory_of_exists hahead (hk.trans h.scope_eq.symm) ho
      (Interest.covers_of_key hi _)
    exact versionIn_eq_some ((h.memory_of_drained hd hi).symm.trans hmem)
  · rintro hgone ⟨v, hv⟩
    rw [h.misses_iff hk]
    cases he : lastAbout Event.key k (heard s.opened.1 s.store c) with
    | some e =>
      have hlast := versionIn_eq_some (h.versionIn_of_reported hd hk hi hgone he)
      simp [last?, hlast]
    | none =>
      have hsame := h.versionIn_of_unreported hd hi he
      cases hlast : lastAbout Change.key k s.log with
      | none => exact absurd rfl (lastAbout_eq_none_iff.mp hlast _ hv)
      | some x =>
        obtain ⟨k', w⟩ := x
        obtain rfl : k' = k := (lastAbout_eq_some hlast).2
        rw [← hsame, versionIn, last?, hlast]
        cases w <;> simp

/-- A secret is put, forwarded, and deleted while there is a stream. -/
theorem lastForwarded_deleted :
    let k : ObjectKey := ⟨.secret, "ns", "app"⟩
    let i : Interest := .addKey ∅ k
    let b : Backoff := .new (.ofMillis 1000) (.ofMillis 1000)
    let ms : List Move := [.store (.put k ∅ ∅), .task 0 true, .task 0 true, .task 0 true,
      .store (.delete k), .task 0 true, .task 0 true]
    let s := run i (new (.after []) k.scope b) ms
    s.Drained ∧ i.keys.contains k = true ∧ s.store.objects.get? k = none ∧
      ⟨k, some "1"⟩ ∈ s.log ∧ (s.last? k = some ⟨k, none⟩ ↔ ¬ s.Misses k) := by
  intro k i b ms s
  have hd : s.Drained := ⟨⟨k.scope, [], 2, false⟩, by decide, by decide⟩
  have hi : i.keys.contains k = true := by decide
  have hnone : s.store.objects.get? k = none := by decide
  have hlog : ⟨k, some "1"⟩ ∈ s.log := by decide
  exact ⟨hd, hi, hnone, hlog, (lastForwarded i k.scope b [] ms s rfl hd k rfl hi).2 hnone ⟨_, hlog⟩⟩

/-- A secret is put, forwarded, and deleted while there is no stream: the task does not forward that
it is gone, although it has a new stream and has read all of it. -/
theorem forwarded_stays :
    let k : ObjectKey := ⟨.secret, "ns", "app"⟩
    let i : Interest := .addKey ∅ k
    let ms : List Move := [.store (.put k ∅ ∅), .task 0 true, .task 0 true, .task 0 true,
      .store .disconnect, .task 0 true, .store (.delete k), .task 1000 true, .task 1000 true,
      .task 1000 true]
    let s := run i (new (.after []) k.scope (.new (.ofMillis 1000) (.ofMillis 1000))) ms
    s.Drained ∧ i.keys.contains k = true ∧ s.store.objects.get? k = none ∧
      ⟨k, some "1"⟩ ∈ s.log ∧ s.last? k = some ⟨k, some "1"⟩ := by
  intro k i ms s
  exact ⟨⟨⟨k.scope, [], 3, false⟩, by decide, by decide⟩, by decide, by decide, by decide,
    by decide⟩

end Lookout

end LiveConfig.Watch
