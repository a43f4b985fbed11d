import LiveConfig.Proofs.Interest
import LiveConfig.Proofs.Stream
import LiveConfig.Watch.Follower

/-!
# Following a store through a stream

What a watch task remembers is what it has read. As long as its stream is live, everything that the
stream reports, from what existed when it was opened to the latest change, falls into a part that
was read and a part that is still ahead; the store holds what the last event about an object left,
and the memory holds what the task made of the last event about it that it read, or else what it
held when the stream was opened (`Follows`). Once nothing is ahead, memory and store agree on every
object that was ever reported, and on no other one.

## Main definitions

* `judged` — what is remembered after an event
* `heard` — all that a stream reports from when it was opened
* `Follows` — how a store, a stream and a memory hang together

## Main results

* `get?_observe`, `observe_cases` — the memory after an event, and when the event is passed on
* `Follows.perform`, `Follows.receive` — what is done to the store, and what is read, is followed
* `Follows.memory_of_exists` — memory and store agree once nothing is ahead
-/

namespace LiveConfig.Watch

/-! ### News and repetitions -/

/-- What is remembered of an object after an event about it: the new version, if the event is of
concern. -/
def judged (i : Interest) (e : Event) : Option (Option String) :=
  if concerns i e then some (Change.ofEvent e).version else none

@[simp] theorem Change.key_ofEvent (e : Event) : (Change.ofEvent e).key = e.key := by
  cases e <;> rfl

/-- Events about objects of interest by key are of concern. -/
theorem judged_of_key {i : Interest} {e : Event} (h : i.keys.contains e.key = true) :
    judged i e = some (Change.ofEvent e).version := by
  have hc : concerns i e = true := by
    cases e with
    | applied o => exact Interest.covers_of_key h (some o.labels)
    | deleted k => exact Interest.covers_of_key h none
  rw [judged, if_pos hc]

namespace Memory

/-- An event changes what is remembered of its object, and of no other one. -/
theorem get?_observe (i : Interest) (m : Memory) (e : Event) (k : ObjectKey) :
    (m.observe i e).2.get? k = if k = e.key then judged i e else m.get? k := by
  simp only [observe, judged, Change.key_ofEvent]
  by_cases hk : k = e.key
  · subst hk
    rw [if_pos rfl]
    by_cases hc : concerns i e = true
    · rw [if_pos hc, if_pos hc]
      by_cases hm : m.get? e.key = some (Change.ofEvent e).version
      · rw [if_pos hm, hm]
      · rw [if_neg hm, SortedMap.get?_insert_self]
    · rw [if_neg hc, if_neg hc]
      cases hm : m.contains e.key with
      | true => rw [if_pos rfl, SortedMap.get?_erase_eq, if_pos rfl]
      | false => simpa [SortedMap.contains] using hm
  · rw [if_neg hk]
    split
    · split
      · rfl
      · rw [SortedMap.get?_insert_eq, if_neg hk]
    · split
      · rw [SortedMap.get?_erase_eq, if_neg hk]
      · rfl

/-- An event is passed on if it changes what is remembered, and then the change that it reports is
passed on. -/
theorem observe_cases (i : Interest) (m : Memory) (e : Event) :
    (m.observe i e).1 = .forward (.ofEvent e) ∧ m.get? e.key ≠ judged i e ∨
      (∀ c, (m.observe i e).1 ≠ .forward c) ∧ (m.observe i e).2 = m ∧
        m.get? e.key = judged i e := by
  simp only [observe, judged, Change.key_ofEvent]
  by_cases hc : concerns i e = true
  · rw [if_pos hc, if_pos hc]
    by_cases hm : m.get? e.key = some (Change.ofEvent e).version
    · rw [if_pos hm]
      refine Or.inr ⟨fun c hv => ?_, rfl, hm⟩
      cases hv
    · rw [if_neg hm]
      exact Or.inl ⟨rfl, hm⟩
  · rw [if_neg hc, if_neg hc]
    cases hm : m.get? e.key with
    | none =>
      rw [if_neg (by rw [SortedMap.contains, hm]; exact Bool.false_ne_true)]
      refine Or.inr ⟨fun c hv => ?_, rfl, rfl⟩
      cases hv
    | some v =>
      rw [if_pos (by rw [SortedMap.contains, hm]; rfl)]
      exact Or.inl ⟨rfl, Option.some_ne_none v⟩

/-- Every version that is remembered is among the first so many. -/
def IssuedBy (n : Nat) (m : Memory) : Prop := ∀ {k v}, m.get? k = some (some v) → Issued n v

theorem IssuedBy.mono {m : Memory} {n n' : Nat} (h : m.IssuedBy n) (hn : n ≤ n') :
    m.IssuedBy n' := fun hk => (h hk).mono hn

theorem IssuedBy.observe {m : Memory} {n : Nat} (h : m.IssuedBy n) (i : Interest) {e : Event}
    (he : ∀ o, e = .applied o → Issued n o.version) : (m.observe i e).2.IssuedBy n := by
  intro k v hk
  rw [get?_observe] at hk
  split at hk
  · rw [judged] at hk
    split at hk
    · cases e with
      | applied o =>
        cases hk
        exact he o rfl
      | deleted k' => cases hk
    · cases hk
  · exact h hk

end Memory

/-! ### Following -/

/-- All that a stream reports that was opened on a store, up to a later store. -/
def heard (s₀ s : Store) (c : Scope) : List Event := (s₀.opened c).ahead s.feed

/-- A stream has not reported an object if it was not there when the stream was opened and nothing
happened to it since. -/
theorem lastAbout_heard_eq_none_iff {s₀ s : Store} (hs : s₀.Sound) {c : Scope} {k : ObjectKey}
    (hk : k.scope = c) : lastAbout Event.key k (heard s₀ s c) = none ↔
      s₀.objects.get? k = none ∧ ∀ e, .event e ∈ s.feed.drop s₀.feed.length → e.key ≠ k := by
  have hheard : heard s₀ s c = (s₀.opened c).ahead s₀.feed ++
      (s.feed.drop s₀.feed.length).filterMap (·.eventIn c) := by
    rw [Store.ahead_opened]
    rfl
  rw [hheard, lastAbout_append, Option.or_eq_none_iff, Store.lastAbout_opened hs hk,
    Option.map_eq_none_iff, and_comm, lastAbout_eq_none_iff]
  refine and_congr_right fun _ => ⟨fun h e he hek => ?_, fun h e he => ?_⟩
  · refine h e (List.mem_filterMap.mpr ⟨_, he, ?_⟩) hek
    exact if_pos (by rw [hek, hk])
  · obtain ⟨x, hx, hxe⟩ := List.mem_filterMap.mp he
    exact h e (Signal.eq_event_of_eventIn hxe ▸ hx)

/-- A follower has followed a store through a stream, from when the stream was opened on the store
`s₀` with a memory `m₀`. -/
structure Follows (i : Interest) (s₀ : Store) (m₀ : Memory) (s : Store) (f : Follower)
    (sub : Subscription) : Prop where
  live : sub.Live s.feed f.scope
  since : s₀.feed.length ≤ s.feed.length
  /-- The store holds what the last event about an object left. -/
  shows : ∀ {k}, k.scope = f.scope →
    s.objects.get? k = (lastAbout Event.key k (heard s₀ s f.scope)).bind Event.object?
  /-- The memory holds what the last event about an object was judged that has been read. -/
  remembers : ∃ read, heard s₀ s f.scope = read ++ sub.ahead s.feed ∧
    ∀ k, f.memory.get? k = ((lastAbout Event.key k read).elim (m₀.get? k) (judged i))
  issued : ∀ {o}, .applied o ∈ heard s₀ s f.scope → Issued s.version o.version

namespace Follows

variable {i : Interest} {s₀ s : Store} {m₀ : Memory} {f : Follower} {sub : Subscription}

theorem heard_append (h : s₀.feed.length ≤ s.feed.length) (l : List Signal) {t : Store}
    (ht : t.feed = s.feed ++ l) (c : Scope) :
    heard s₀ t c = heard s₀ s c ++ l.filterMap (·.eventIn c) := by
  rw [heard, ht]
  exact Subscription.ahead_append h l

/-- A stream that was just opened. -/
theorem opened (hs : s.Sound) (i : Interest) (f : Follower) :
    Follows i s f.memory s f (s.opened f.scope) where
  live := s.live_opened f.scope
  since := Nat.le_refl _
  shows := by
    intro k hk
    rw [heard, Store.lastAbout_opened hs hk]
    cases s.objects.get? k <;> rfl
  remembers := ⟨[], rfl, fun _ => rfl⟩
  issued := by
    intro o ho
    rw [heard, Store.ahead_opened] at ho
    obtain ⟨o', ho', heq⟩ := List.mem_map.mp ho
    injection heq with heq
    subst heq
    exact hs.issued ((Store.mem_objectsIn_iff hs.keyed).mp ho').1

/-- Only objects, versions and the feed of a store matter. -/
theorem congr (h : Follows i s₀ m₀ s f sub) {t : Store} (hobjects : t.objects = s.objects)
    (hversion : t.version = s.version) (hfeed : t.feed = s.feed) : Follows i s₀ m₀ t f sub := by
  obtain ⟨live, since, shows, remembers, issued⟩ := h
  constructor
  · rwa [hfeed]
  · rwa [hfeed]
  · intro k hk
    rw [hobjects, shows hk, heard, heard, hfeed]
  · rwa [heard, hfeed]
  · intro o ho
    rw [heard, hfeed] at ho
    rw [hversion]
    exact issued ho

/-- An event that is recorded is ahead of the streams of its scope. -/
theorem records (h : Follows i s₀ m₀ s f sub) {t : Store} {e : Event} (ht : s.Records t e) :
    Follows i s₀ m₀ t f sub := by
  have hheard : heard s₀ t f.scope =
      heard s₀ s f.scope ++ [Signal.event e].filterMap (·.eventIn f.scope) :=
    heard_append h.since _ ht.feed _
  constructor
  · rw [ht.feed]
    exact h.live.append _
  · rw [ht.feed, List.length_append]
    exact Nat.le_trans h.since (Nat.le_add_right _ _)
  · intro k hk
    rw [hheard, lastAbout_append, ht.objects]
    by_cases hke : k = e.key
    · subst hke
      simp [Signal.eventIn, hk, lastAbout_singleton]
    · rw [if_neg hke, h.shows hk]
      by_cases hscope : e.key.scope = f.scope
      · simp [Signal.eventIn, hscope, lastAbout_singleton, Ne.symm hke]
      · simp [Signal.eventIn, hscope]
  · obtain ⟨read, hread, hmem⟩ := h.remembers
    refine ⟨read, ?_, hmem⟩
    rw [hheard, hread, ht.feed, Subscription.ahead_append h.live.position_le, h.live.scope_eq,
      List.append_assoc]
  · intro o ho
    rw [hheard, List.mem_append] at ho
    rcases ho with ho | ho
    · exact (h.issued ho).mono ht.version_le
    · obtain ⟨x, hx, hxe⟩ := List.mem_filterMap.mp ho
      obtain rfl := List.mem_singleton.mp hx
      injection Signal.eq_event_of_eventIn hxe with heo
      exact ht.issued heo

/-- Streams that are told to break still follow until they read it. -/
theorem disconnect (h : Follows i s₀ m₀ s f sub) : Follows i s₀ m₀ s.disconnect f sub := by
  have hfeed : s.disconnect.feed = s.feed ++ [.disconnect] := rfl
  have hheard : heard s₀ s.disconnect f.scope = heard s₀ s f.scope := by
    rw [heard_append h.since _ hfeed]
    exact List.append_nil _
  constructor
  · rw [hfeed]
    exact h.live.append _
  · rw [hfeed, List.length_append]
    exact Nat.le_trans h.since (Nat.le_add_right _ _)
  · intro k hk
    rw [hheard]
    exact h.shows hk
  · obtain ⟨read, hread, hmem⟩ := h.remembers
    refine ⟨read, ?_, hmem⟩
    rw [hheard, hread, hfeed, Subscription.ahead_append h.live.position_le]
    simp [Signal.eventIn]
  · intro o ho
    rw [hheard] at ho
    exact h.issued ho

theorem perform (h : Follows i s₀ m₀ s f sub) (x : Store.Step) :
    Follows i s₀ m₀ (s.perform x).1 f sub :=
  Store.perform_induction (P := fun t => Follows i s₀ m₀ t f sub) (fun ht _ h => h.records ht)
    (fun _ h => h.disconnect) h

/-- An event that is read is remembered. -/
theorem receive (h : Follows i s₀ m₀ s f sub) {e : Event} {sub' : Subscription}
    (hahead : sub.ahead s.feed = e :: sub'.ahead s.feed) (hlive : sub'.Live s.feed f.scope) :
    Follows i s₀ m₀ s (f.receive i e).2 sub' where
  live := hlive
  since := h.since
  shows := h.shows
  remembers := by
    obtain ⟨read, hread, hmem⟩ := h.remembers
    refine ⟨read ++ [e], ?_, fun k => ?_⟩
    · rw [List.append_assoc, List.singleton_append, ← hahead]
      exact hread
    · change (f.memory.observe i e).2.get? k = _
      rw [Memory.get?_observe, lastAbout_append, lastAbout_singleton]
      by_cases hk : k = e.key
      · rw [if_pos hk, if_pos hk.symm]
        rfl
      · rw [if_neg hk, if_neg (Ne.symm hk), hmem]
        rfl
  issued := h.issued

theorem reread (h : Follows i s₀ m₀ s f sub) {sub' : Subscription}
    (hahead : sub.ahead s.feed = sub'.ahead s.feed) (hlive : sub'.Live s.feed f.scope) :
    Follows i s₀ m₀ s f sub' where
  live := hlive
  since := h.since
  shows := h.shows
  remembers := by rw [← hahead]; exact h.remembers
  issued := h.issued

theorem mem_heard_of_ahead (h : Follows i s₀ m₀ s f sub) {e : Event} (he : e ∈ sub.ahead s.feed) :
    e ∈ heard s₀ s f.scope := by
  obtain ⟨read, hread, -⟩ := h.remembers
  rw [hread]
  exact List.mem_append_right _ he

/-- If an object exists that is remembered to be gone, and all that is remembered was reported by
the stream, then the stream has still to report the object. -/
theorem exists_ahead (h : Follows i s₀ ∅ s f sub) {k : ObjectKey} (hk : k.scope = f.scope)
    (hs : s.objects.contains k = true) (hm : f.memory.get? k = some none) :
    ∃ o, o.key = k ∧ .applied o ∈ sub.ahead s.feed := by
  obtain ⟨read, hread, hmem⟩ := h.remembers
  obtain ⟨x, hx⟩ := SortedMap.contains_iff.mp hs
  have hshows := h.shows hk
  rw [hx, hread, lastAbout_append] at hshows
  rw [hmem] at hm
  cases hahead : lastAbout Event.key k (sub.ahead s.feed) with
  | some e =>
    rw [hahead] at hshows
    obtain ⟨he, hek⟩ := lastAbout_eq_some hahead
    cases e with
    | applied o => exact ⟨o, hek, he⟩
    | deleted k' => cases hshows
  | none =>
    -- the last event that was read would have left the object and is remembered otherwise
    rw [hahead, Option.none_or] at hshows
    cases hlast : lastAbout Event.key k read with
    | none => rw [hlast] at hshows; cases hshows
    | some e =>
      rw [hlast] at hshows hm
      cases e with
      | deleted k' => cases hshows
      | applied o =>
        change judged i (.applied o) = some none at hm
        rw [judged] at hm
        split at hm <;> cases hm

/-! ### Nothing ahead -/

/-- Nothing is ahead and something has been reported of an object: what is remembered of it is what
the store holds. -/
theorem memory_of_heard (h : Follows i s₀ m₀ s f sub) (hahead : sub.ahead s.feed = [])
    {k : ObjectKey} {e : Event} (he : lastAbout Event.key k (heard s₀ s f.scope) = some e) :
    f.memory.get? k = judged i e := by
  obtain ⟨read, hread, hmem⟩ := h.remembers
  rw [hahead, List.append_nil] at hread
  rw [hmem, ← hread, he]
  rfl

/-- Nothing is ahead and nothing has been reported of an object: it is not there, and is remembered
as it was when the stream was opened. -/
theorem memory_of_unheard (h : Follows i s₀ m₀ s f sub) (hahead : sub.ahead s.feed = [])
    {k : ObjectKey} (he : lastAbout Event.key k (heard s₀ s f.scope) = none) :
    f.memory.get? k = m₀.get? k := by
  obtain ⟨read, hread, hmem⟩ := h.remembers
  rw [hahead, List.append_nil] at hread
  rw [hmem, ← hread, he]
  rfl

/-- **Nothing is ahead: an object of concern that exists is remembered with its version.** -/
theorem memory_of_exists (h : Follows i s₀ m₀ s f sub) (hahead : sub.ahead s.feed = [])
    {k : ObjectKey} {o : Object} (hk : k.scope = f.scope) (ho : s.objects.get? k = some o)
    (hi : i.covers k (some o.labels) = true) : f.memory.get? k = some (some o.version) := by
  have hshows := h.shows hk
  rw [ho] at hshows
  cases he : lastAbout Event.key k (heard s₀ s f.scope) with
  | none => rw [he] at hshows; cases hshows
  | some e =>
    rw [he] at hshows
    obtain rfl : e.key = k := (lastAbout_eq_some he).2
    cases e with
    | deleted k' => cases hshows
    | applied o' =>
      injection hshows with hshows
      subst hshows
      rw [h.memory_of_heard hahead he, judged, concerns]
      exact if_pos hi

end Follows

end LiveConfig.Watch
