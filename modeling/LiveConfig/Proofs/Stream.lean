import LiveConfig.Proofs.StoreHistory
import LiveConfig.Subscription

/-!
# What a stream has still to report

Reading a stream is a matter of one list: the events that it has not reported yet
(`Subscription.ahead`). Opening a stream fills the list with what exists, every change of its scope
extends it at the end, and reading takes events off the front, until there is none or the stream
breaks.

Of everything that a stream reports about an object only the last event counts (`lastAbout`): that
is what the store holds at the end.

## Main definitions

* `lastAbout` — the last event or change about an object
* `Subscription.ahead` — what a stream has still to report
* `Subscription.Live` — a stream of a scope that has not broken

## Main results

* `Subscription.Live.next_cases` — what reading a live stream does
* `Store.lastAbout_opened` — a new stream reports what exists
-/

namespace LiveConfig

/-! ### The last one about an object -/

section LastAbout

variable {α : Type} (key : α → ObjectKey) (k : ObjectKey)

/-- The last of a list that is about an object. -/
def lastAbout (l : List α) : Option α := l.reverse.find? (key · == k)

@[simp] theorem lastAbout_nil : lastAbout key k [] = none := rfl

theorem lastAbout_append (l l' : List α) :
    lastAbout key k (l ++ l') = (lastAbout key k l').or (lastAbout key k l) := by
  rw [lastAbout, List.reverse_append, List.find?_append]
  rfl

theorem lastAbout_singleton (x : α) :
    lastAbout key k [x] = if key x = k then some x else none := by
  by_cases h : key x = k <;> simp [lastAbout, h]

variable {key k}

theorem lastAbout_eq_some {l : List α} {x : α} (h : lastAbout key k l = some x) :
    x ∈ l ∧ key x = k :=
  ⟨List.mem_reverse.mp (List.mem_of_find?_eq_some h), by simpa using List.find?_some h⟩

theorem lastAbout_eq_none_iff {l : List α} : lastAbout key k l = none ↔ ∀ x ∈ l, key x ≠ k := by
  simp [lastAbout]

end LastAbout

/-! ### Unread events -/

/-- The event that a signal reports to the streams of a scope. -/
def Signal.eventIn (c : Scope) : Signal → Option Event
  | .event e => if e.key.scope = c then some e else none
  | .disconnect => none

theorem Signal.eq_event_of_eventIn {c : Scope} {x : Signal} {e : Event}
    (h : x.eventIn c = some e) : x = .event e := by
  cases x with
  | disconnect => cases h
  | event e' =>
    rw [eventIn] at h
    split at h
    · exact congrArg _ (Option.some.inj h)
    · cases h

namespace Subscription

/-- The signals that a stream has not read. -/
def unread (feed : List Signal) (s : Subscription) : List Signal := feed.drop s.position

/-- The events that a stream has still to report. -/
def ahead (feed : List Signal) (s : Subscription) : List Event :=
  s.replay.map .applied ++ (s.unread feed).filterMap (·.eventIn s.scope)

theorem unread_append {feed : List Signal} {s : Subscription} (h : s.position ≤ feed.length)
    (l : List Signal) : s.unread (feed ++ l) = s.unread feed ++ l :=
  List.drop_append_of_le_length h

theorem ahead_append {feed : List Signal} {s : Subscription} (h : s.position ≤ feed.length)
    (l : List Signal) :
    s.ahead (feed ++ l) = s.ahead feed ++ l.filterMap (·.eventIn s.scope) := by
  rw [ahead, ahead, unread_append h, List.filterMap_append, List.append_assoc]

/-- Scanning signals stops at the first event of the scope, or at a break before it, or at the end
if there is neither. -/
theorem scan_cases (c : Scope) (l : List Signal) :
    (∃ e n, scan c l = (.event e, n) ∧ n ≤ l.length ∧
      l.filterMap (·.eventIn c) = e :: (l.drop n).filterMap (·.eventIn c)) ∨
    (scan c l = (.pending, l.length) ∧ l.filterMap (·.eventIn c) = []) ∨
    (∃ f n, scan c l = (.broken f, n) ∧ .disconnect ∈ l) := by
  induction l with
  | nil => exact Or.inr (Or.inl ⟨rfl, rfl⟩)
  | cons x l ih =>
    cases x with
    | disconnect => exact Or.inr (Or.inr ⟨_, _, rfl, List.mem_cons_self⟩)
    | event e =>
      by_cases he : e.key.scope = c
      · refine Or.inl ⟨e, 1, ?_, Nat.succ_le_succ (Nat.zero_le _), ?_⟩
        · rw [scan, if_pos he]
        · simp [Signal.eventIn, he]
      · have hskip : (Signal.event e :: l).filterMap (·.eventIn c) = l.filterMap (·.eventIn c) := by
          simp [Signal.eventIn, he]
        rw [scan, if_neg he, hskip]
        rcases ih with ⟨e', n, hscan, hn, hl⟩ | ⟨hscan, hl⟩ | ⟨f, n, hscan, hmem⟩
        · exact Or.inl ⟨e', n + 1, by rw [hscan], Nat.succ_le_succ hn, hl⟩
        · exact Or.inr (Or.inl ⟨by rw [hscan]; rfl, hl⟩)
        · exact Or.inr (Or.inr ⟨f, n + 1, by rw [hscan], List.mem_cons_of_mem _ hmem⟩)

/-- A stream of a scope that has not broken. -/
structure Live (feed : List Signal) (c : Scope) (s : Subscription) : Prop where
  scope_eq : s.scope = c
  isOpen : s.closed = false
  position_le : s.position ≤ feed.length

theorem Live.append {feed : List Signal} {c : Scope} {s : Subscription} (h : s.Live feed c)
    (l : List Signal) : s.Live (feed ++ l) c :=
  ⟨h.scope_eq, h.isOpen, Nat.le_trans h.position_le (by rw [List.length_append]; omega)⟩

/-- The feed makes a stream break when it is read next: it is too far behind, or it is told to. -/
def Breaks (feed : List Signal) (s : Subscription) : Prop :=
  feedLimit < (s.unread feed).length ∨ .disconnect ∈ s.unread feed

/-- The stream with so many more signals read. -/
def skip (n : Nat) (s : Subscription) : Subscription := { s with position := s.position + n }

theorem unread_skip (feed : List Signal) (s : Subscription) (n : Nat) :
    (s.skip n).unread feed = (s.unread feed).drop n := by
  rw [unread, unread, skip, List.drop_drop]

theorem ahead_skip {feed : List Signal} {s : Subscription} (h : s.replay = []) (n : Nat) :
    (s.skip n).ahead feed = ((s.unread feed).drop n).filterMap (·.eventIn s.scope) := by
  rw [ahead, unread_skip, skip, h]
  rfl

theorem Live.skip {feed : List Signal} {c : Scope} {s : Subscription} (h : s.Live feed c) {n : Nat}
    (hn : n ≤ (s.unread feed).length) : (s.skip n).Live feed c := by
  refine ⟨h.scope_eq, h.isOpen, ?_⟩
  have hle := h.position_le
  rw [unread, List.length_drop] at hn
  change s.position + n ≤ feed.length
  omega

theorem readFeed_of_lag {feed : List Signal} {s : Subscription}
    (h : feedLimit < (s.unread feed).length) : ∃ f t, s.readFeed feed = (.broken f, t) := by
  rw [readFeed, if_pos (show feedLimit < (feed.drop s.position).length from h)]
  exact ⟨_, _, rfl⟩

/-- Reading the feed is scanning the unread signals, if there are not too many of them. -/
theorem readFeed_eq {feed : List Signal} {s : Subscription}
    (h : ¬ feedLimit < (s.unread feed).length) : s.readFeed feed =
      match scan s.scope (s.unread feed) with
      | (Reading.broken f, n) => (.broken f, { s.skip n with closed := true })
      | (found, n) => (found, s.skip n) := by
  rw [readFeed, if_neg (show ¬ feedLimit < (feed.drop s.position).length from h)]
  change _ = match scan s.scope (feed.drop s.position) with
    | (Reading.broken f, n) => (Reading.broken f, { s.skip n with closed := true })
    | (found, n) => (found, s.skip n)
  rcases scan s.scope (feed.drop s.position) with ⟨_ | _ | _ | _, n⟩ <;> rfl

theorem next_of_replay {feed : List Signal} {s : Subscription} {o : Object} {r : List Object}
    (hopen : s.closed = false) (hreplay : s.replay = o :: r) :
    s.next feed = (.event (.applied o), { s with replay := r }) := by
  simp [next, hopen, hreplay]

theorem next_of_replayed {feed : List Signal} {s : Subscription} (hopen : s.closed = false)
    (hreplay : s.replay = []) : s.next feed = s.readFeed feed := by
  simp [next, hopen, hreplay]

/-- **Reading a live stream** takes off the first event that it has still to report, or says that
there is none, or breaks the stream. -/
theorem Live.next_cases {feed : List Signal} {c : Scope} {s : Subscription} (h : s.Live feed c) :
    (∃ e t, s.next feed = (.event e, t) ∧ t.Live feed c ∧ s.ahead feed = e :: t.ahead feed ∧
      t.unread feed ⊆ s.unread feed) ∨
    (∃ t, s.next feed = (.pending, t) ∧ t.Live feed c ∧ s.ahead feed = [] ∧ t.ahead feed = [] ∧
      t.unread feed ⊆ s.unread feed) ∨
    (∃ f t, s.next feed = (.broken f, t) ∧ s.Breaks feed) := by
  cases hreplay : s.replay with
  | cons o r =>
    rw [next_of_replay h.isOpen hreplay]
    refine Or.inl ⟨_, _, rfl, ⟨h.scope_eq, h.isOpen, h.position_le⟩, ?_, fun _ hx => hx⟩
    rw [ahead, hreplay]
    rfl
  | nil =>
    rw [next_of_replayed h.isOpen hreplay]
    have hahead : s.ahead feed = (s.unread feed).filterMap (·.eventIn s.scope) := by
      rw [ahead, hreplay]
      rfl
    have hsub : ∀ n, (s.skip n).unread feed ⊆ s.unread feed := fun n x hx =>
      List.mem_of_mem_drop (unread_skip feed s n ▸ hx)
    by_cases hlag : feedLimit < (s.unread feed).length
    · obtain ⟨f, t, hread⟩ := readFeed_of_lag hlag
      exact Or.inr (Or.inr ⟨f, t, hread, Or.inl hlag⟩)
    · rw [readFeed_eq hlag]
      rcases scan_cases s.scope (s.unread feed) with ⟨e, n, hscan, hn, hl⟩ | ⟨hscan, hl⟩ |
        ⟨f, n, hscan, hmem⟩
      · rw [hscan]
        refine Or.inl ⟨e, s.skip n, rfl, h.skip hn, ?_, hsub n⟩
        rw [hahead, hl, ahead_skip hreplay]
      · rw [hscan]
        refine Or.inr (Or.inl ⟨_, rfl, h.skip (Nat.le_refl _), hahead.trans hl, ?_, hsub _⟩)
        rw [ahead_skip hreplay, List.drop_length]
        rfl
      · rw [hscan]
        exact Or.inr (Or.inr ⟨f, _, rfl, Or.inr hmem⟩)

theorem Live.next_event {feed : List Signal} {c : Scope} {s t : Subscription} {e : Event}
    (h : s.Live feed c) (hnext : s.next feed = (.event e, t)) :
    s.ahead feed = e :: t.ahead feed ∧ t.Live feed c ∧ t.unread feed ⊆ s.unread feed := by
  rcases h.next_cases with ⟨e', u, hu, hlive, hahead, hsub⟩ | ⟨u, hu, -⟩ | ⟨f, u, hu, -⟩ <;>
    rw [hnext] at hu <;> cases hu
  exact ⟨hahead, hlive, hsub⟩

theorem Live.next_pending {feed : List Signal} {c : Scope} {s t : Subscription} (h : s.Live feed c)
    (hnext : s.next feed = (.pending, t)) :
    s.ahead feed = [] ∧ t.ahead feed = [] ∧ t.Live feed c ∧ t.unread feed ⊆ s.unread feed := by
  rcases h.next_cases with ⟨e, u, hu, -⟩ | ⟨u, hu, hlive, hnil, hnil', hsub⟩ | ⟨f, u, hu, -⟩ <;>
    rw [hnext] at hu <;> cases hu
  exact ⟨hnil, hnil', hlive, hsub⟩

theorem Live.breaks_of_next {feed : List Signal} {c : Scope} {s t : Subscription} {r : Reading}
    (h : s.Live feed c) (hnext : s.next feed = (r, t)) (hevent : ∀ e, r ≠ .event e)
    (hpending : r ≠ .pending) : s.Breaks feed := by
  rcases h.next_cases with ⟨e, u, hu, -⟩ | ⟨u, hu, -⟩ | ⟨f, u, hu, hbreaks⟩ <;>
    rw [hnext] at hu <;> cases hu
  · exact absurd rfl (hevent e)
  · exact absurd rfl hpending
  · exact hbreaks

end Subscription

/-! ### New streams -/

namespace Store

/-- A stream that is opened now. -/
def opened (s : Store) (c : Scope) : Subscription := ⟨c, s.objectsIn c, s.feed.length, false⟩

theorem live_opened (s : Store) (c : Scope) : (s.opened c).Live s.feed c :=
  ⟨rfl, rfl, Nat.le_refl _⟩

theorem unread_opened (s : Store) (c : Scope) : (s.opened c).unread s.feed = [] :=
  List.drop_length

theorem ahead_opened (s : Store) (c : Scope) :
    (s.opened c).ahead s.feed = (s.objectsIn c).map .applied := by
  rw [Subscription.ahead, unread_opened]
  exact List.append_nil _

/-- A new stream reports each object of its scope as it is now. -/
theorem lastAbout_opened {s : Store} (hs : s.Sound) {c : Scope} {k : ObjectKey} (hk : k.scope = c) :
    lastAbout Event.key k ((s.opened c).ahead s.feed) = (s.objects.get? k).map .applied := by
  rw [ahead_opened]
  have hmem : ∀ e ∈ (s.objectsIn c).map Event.applied, e.key = k →
      (s.objects.get? k).map .applied = some e := by
    intro e he hek
    obtain ⟨o, ho, rfl⟩ := List.mem_map.mp he
    obtain rfl : o.key = k := hek
    rw [((mem_objectsIn_iff hs.keyed).mp ho).1]
    rfl
  cases hlast : lastAbout Event.key k ((s.objectsIn c).map Event.applied) with
  | some e =>
    obtain ⟨he, hek⟩ := lastAbout_eq_some hlast
    exact (hmem e he hek).symm
  | none =>
    cases ho : s.objects.get? k with
    | none => rfl
    | some o =>
      obtain rfl := hs.keyed ho
      refine absurd rfl (lastAbout_eq_none_iff.mp hlast (.applied o) ?_)
      exact List.mem_map_of_mem ((mem_objectsIn_iff hs.keyed).mpr ⟨ho, hk⟩)

theorem subscribe_eq (s : Store) (c : Scope) :
    s.subscribe c = (.ok (s.opened c), { s with subscriptions := s.subscriptions + 1 }) ∨
      ∃ f, s.subscribe c = (.error f, s) := by
  rw [subscribe]
  split
  · exact Or.inr ⟨_, rfl⟩
  · exact Or.inl rfl

end Store

end LiveConfig
