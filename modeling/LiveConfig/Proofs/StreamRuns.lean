import LiveConfig.Proofs.Stream

/-!
# Whole runs of a stream

A stream of a store that goes on changing while the stream is read. What it owes is fixed by the
store alone (`owed`): the objects that existed when it was opened, then the events of its scope that
were signalled since. A reader who has been told that there is nothing more has been told all of
this, in this order and each of it once; so replaying what was reported gives the objects of the
scope as the store has them.

That goes well until the stream breaks. It does when it is read while it is too far behind, counted
in signals of all scopes, or when it comes to a signal that tells it to; it reports that once, and
nothing after it.

The signals since the opening are those that the stream has gone past and those that it has not
read. Every turn of a run keeps this account, unless it is the read that breaks the stream
(`StreamRun.Keeps`).

## Main definitions

* `StreamRun` — a store, a stream of it, and what was read
* `Event.record` — an event replayed on a map of objects
* `StreamRun.Faithful` — the stream has reported what it owes, as far as it was read

## Main results

* `Subscription.scan_split` — the signals that a scan goes past
* `Store.inScope_perform` — the events of a scope say what becomes of its objects
* `StreamRun.Keeps.run` — a run keeps account, or has broken off at one of its reads
* `StreamRun.faithful` — a stream has no gap and no duplicate, and breaks only for a reason
-/

namespace LiveConfig

/-! ### Events replayed -/

/-- A map of objects after an event. -/
def Event.record (m : SortedMap ObjectKey Object) : Event → SortedMap ObjectKey Object
  | .applied o => m.insert o.key o
  | .deleted k => m.erase k

theorem Event.get?_record (m : SortedMap ObjectKey Object) (e : Event) (k : ObjectKey) :
    (e.record m).get? k = if k = e.key then e.object? else m.get? k := by
  cases e with
  | applied o => exact SortedMap.get?_insert_eq m o.key k o
  | deleted k' => exact SortedMap.get?_erase_eq m k' k

/-- Events replayed on no objects at all. -/
def replayed (es : List Event) : SortedMap ObjectKey Object :=
  es.foldl Event.record ∅

namespace Store

/-- The objects of a scope. -/
def inScope (s : Store) (c : Scope) : SortedMap ObjectKey Object :=
  s.objects.filter fun k _ => k.scope == c

theorem get?_inScope (s : Store) (c : Scope) (k : ObjectKey) :
    (s.inScope c).get? k = if k.scope = c then s.objects.get? k else none := by
  rw [inScope, SortedMap.get?_filter]
  by_cases h : k.scope = c <;> cases s.objects.get? k <;> simp [Option.filter, h]

/-- An event of the scope is replayed on the objects of the scope; others do not matter. -/
theorem inScope_records {s t : Store} {e : Event} (h : s.Records t e) (c : Scope) :
    t.inScope c = if e.key.scope = c then e.record (s.inScope c) else s.inScope c := by
  refine SortedMap.ext_get? fun k => ?_
  rw [get?_inScope, h.objects]
  by_cases hscope : e.key.scope = c
  · rw [if_pos hscope, Event.get?_record, get?_inScope]
    by_cases hk : k = e.key
    · simp [hk, hscope]
    · simp [hk]
  · rw [if_neg hscope, get?_inScope]
    by_cases hk : k = e.key
    · simp [hk, hscope]
    · simp [hk]

/-- **The events of a scope say what becomes of its objects**, whatever is done to the store. -/
theorem inScope_perform (s : Store) (x : Step) (c : Scope) :
    ∃ l, (s.perform x).1.feed = s.feed ++ l ∧
      (s.perform x).1.inScope c =
        (l.filterMap (·.eventIn c)).foldl Event.record (s.inScope c) := by
  refine perform_induction (P := fun t => ∃ l, t.feed = s.feed ++ l ∧
    t.inScope c = (l.filterMap (·.eventIn c)).foldl Event.record (s.inScope c)) ?_ ?_
      ⟨[], (List.append_nil _).symm, rfl⟩
  · rintro r t e ht - ⟨l, hl, hobjects⟩
    refine ⟨l ++ [.event e], by rw [ht.feed, hl, List.append_assoc], ?_⟩
    rw [inScope_records ht, hobjects, List.filterMap_append, List.foldl_append]
    by_cases hscope : e.key.scope = c <;> simp [Signal.eventIn, hscope]
  · rintro r - ⟨l, hl, hobjects⟩
    refine ⟨l ++ [.disconnect], by rw [← List.append_assoc, ← hl]; rfl, ?_⟩
    rw [List.filterMap_append, List.foldl_append, ← hobjects]
    rfl

/-- The objects of a scope are listed in the order of their keys. -/
theorem pairwise_objectsIn {s : Store} (hs : s.Keyed) (c : Scope) :
    (s.objectsIn c).Pairwise fun a b => compare a.key b.key = .lt := by
  have hvalues : s.objects.values.Pairwise fun a b => compare a.key b.key = .lt := by
    rw [SortedMap.values, List.pairwise_map]
    refine s.objects.ascending.imp_of_mem fun {a b} ha hb hlt => ?_
    rwa [hs (SortedMap.get?_eq_some_iff.mpr ha), hs (SortedMap.get?_eq_some_iff.mpr hb)]
  exact hvalues.filter _

/-- What a new stream reports first are the objects of its scope. -/
theorem replayed_objectsIn {s : Store} (hs : s.Keyed) (c : Scope) :
    replayed ((s.objectsIn c).map .applied) = s.inScope c := by
  have hkey : ∀ e ∈ (s.inScope c).entries, e.2.key = e.1 ∧ (e.1.scope == c) = true := by
    intro e he
    obtain ⟨hmem, hscope⟩ := List.mem_filter.mp he
    exact ⟨hs (SortedMap.get?_eq_some_iff.mpr hmem), hscope⟩
  have hobjects : s.objectsIn c = (s.inScope c).entries.map Prod.snd := by
    rw [objectsIn, SortedMap.values, List.filter_map]
    refine congrArg (List.map _) (List.filter_congr fun e he => ?_)
    rw [Function.comp_apply, hs (SortedMap.get?_eq_some_iff.mpr he)]
  have hentries : ∀ (l : List (ObjectKey × Object)) (m : SortedMap ObjectKey Object),
      (∀ e ∈ l, e.2.key = e.1 ∧ (e.1.scope == c) = true) →
        ((l.map Prod.snd).map Event.applied).foldl Event.record m = m.insertMany l := by
    intro l
    induction l with
    | nil => exact fun _ _ => rfl
    | cons e l ih =>
      intro m hl
      obtain ⟨he, hl⟩ := List.forall_mem_cons.mp hl
      have hfirst : Event.record m (.applied e.2) = m.insert e.1 e.2 := by
        rw [Event.record, he.1]
      rw [List.map_cons, List.map_cons, List.foldl_cons, hfirst, ih _ hl]
      rfl
  rw [replayed, hobjects, hentries _ _ hkey]
  exact SortedMap.ofList_entries _

end Store

/-! ### Scans -/

namespace Subscription

/-- **The signals that a scan goes past** neither concern the scope nor tell the stream to break
off. It stops behind the first one that does, if there is one. -/
theorem scan_split (c : Scope) (l : List Signal) : ∃ past rest, l = past ++ rest ∧
    .disconnect ∉ past ∧ past.filterMap (·.eventIn c) = [] ∧
    ((rest = [] ∧ scan c l = (.pending, past.length)) ∨
      (∃ e r, rest = .event e :: r ∧ e.key.scope = c ∧ scan c l = (.event e, past.length + 1)) ∨
      ∃ f r, rest = .disconnect :: r ∧ scan c l = (.broken f, past.length + 1)) := by
  induction l with
  | nil => exact ⟨[], [], rfl, List.not_mem_nil, rfl, Or.inl ⟨rfl, rfl⟩⟩
  | cons x l ih =>
    cases x with
    | disconnect =>
      exact ⟨[], _, rfl, List.not_mem_nil, rfl, Or.inr (Or.inr ⟨_, l, rfl, rfl⟩)⟩
    | event e =>
      by_cases he : e.key.scope = c
      · refine ⟨[], _, rfl, List.not_mem_nil, rfl, Or.inr (Or.inl ⟨e, l, rfl, he, ?_⟩)⟩
        rw [scan, if_pos he]
        rfl
      · obtain ⟨past, rest, rfl, hpast, hnone, hscan⟩ := ih
        refine ⟨.event e :: past, rest, rfl, by simp [hpast], ?_, ?_⟩
        · rw [List.filterMap_cons_none (by simp [Signal.eventIn, he]), hnone]
        · rw [scan, if_neg he]
          rcases hscan with ⟨hrest, hscan⟩ | ⟨e', r, hrest, he', hscan⟩ | ⟨f, r, hrest, hscan⟩
          · exact Or.inl ⟨hrest, by rw [hscan]; rfl⟩
          · exact Or.inr (Or.inl ⟨e', r, hrest, he', by rw [hscan]; rfl⟩)
          · exact Or.inr (Or.inr ⟨f, r, hrest, by rw [hscan]; rfl⟩)

/-- A scan that comes to a disconnect before any event of the scope breaks off. -/
theorem scan_disconnect {c : Scope} {past : List Signal} (h : past.filterMap (·.eventIn c) = [])
    (r : List Signal) : ∃ f n, scan c (past ++ .disconnect :: r) = (.broken f, n) := by
  induction past with
  | nil => exact ⟨_, _, rfl⟩
  | cons x past ih =>
    cases x with
    | disconnect => exact ⟨_, _, rfl⟩
    | event e =>
      have he : e.key.scope ≠ c := by
        intro he
        simp [Signal.eventIn, he] at h
      obtain ⟨f, n, hscan⟩ := ih (by simpa [Signal.eventIn, he] using h)
      exact ⟨f, n + 1, by rw [List.cons_append, scan, if_neg he, hscan]⟩

/-- The stream breaks at its next read: everything that existed is reported, and either it is too
far behind, or it comes to a signal that tells it to break off before any event of its scope. -/
def BreaksNext (feed : List Signal) (s : Subscription) : Prop :=
  s.replay = [] ∧ (feedLimit < (s.unread feed).length ∨
    ∃ past r, s.unread feed = past ++ .disconnect :: r ∧
      past.filterMap (·.eventIn s.scope) = [])

/-- **A read of an open stream**, by what comes next: an object that existed, a break, an event that
was signalled, or nothing. -/
theorem next_split {s : Subscription} (hopen : s.closed = false) (feed : List Signal) :
    (∃ o r, s.replay = o :: r ∧ s.next feed = (.event (.applied o), { s with replay := r })) ∨
    (s.BreaksNext feed ∧ ∃ f u, s.next feed = (.broken f, u) ∧ u.closed = true) ∨
    (s.replay = [] ∧ ∃ past rest, s.unread feed = past ++ rest ∧ .disconnect ∉ past ∧
      past.filterMap (·.eventIn s.scope) = [] ∧
      ((rest = [] ∧ s.next feed = (.pending, s.skip past.length)) ∨
        ∃ e r, rest = .event e :: r ∧ e.key.scope = s.scope ∧
          s.next feed = (.event e, s.skip (past.length + 1)))) := by
  cases hreplay : s.replay with
  | cons o r => exact Or.inl ⟨o, r, rfl, next_of_replay hopen hreplay⟩
  | nil =>
    rw [next_of_replayed hopen hreplay]
    by_cases hlag : feedLimit < (s.unread feed).length
    · refine Or.inr (Or.inl ⟨⟨hreplay, Or.inl hlag⟩, ?_⟩)
      rw [readFeed, if_pos (show feedLimit < (feed.drop s.position).length from hlag)]
      exact ⟨_, _, rfl, rfl⟩
    · rw [readFeed_eq hlag]
      obtain ⟨past, rest, hsplit, hpast, hnone, hscan⟩ := scan_split s.scope (s.unread feed)
      rcases hscan with ⟨hrest, hscan⟩ | ⟨e, r, hrest, he, hscan⟩ | ⟨f, r, hrest, hscan⟩ <;>
        rw [hscan]
      · exact Or.inr (Or.inr ⟨rfl, past, rest, hsplit, hpast, hnone, Or.inl ⟨hrest, rfl⟩⟩)
      · exact Or.inr (Or.inr ⟨rfl, past, rest, hsplit, hpast, hnone,
          Or.inr ⟨e, r, hrest, he, rfl⟩⟩)
      · exact Or.inr (Or.inl ⟨⟨hreplay, Or.inr ⟨past, r, hrest ▸ hsplit, hnone⟩⟩, _, _, rfl, rfl⟩)

/-- A stream breaks only for a reason, and whenever there is one. -/
theorem broken_iff {feed : List Signal} {s : Subscription} (hopen : s.closed = false) :
    (∃ f, (s.next feed).1 = .broken f) ↔ s.BreaksNext feed := by
  constructor
  · rintro ⟨f, hf⟩
    rcases next_split hopen feed with ⟨o, r, -, hnext⟩ | ⟨hbreaks, -⟩ |
      ⟨-, past, rest, -, -, -, ⟨-, hnext⟩ | ⟨e, r, -, -, hnext⟩⟩
    · rw [hnext] at hf
      cases hf
    · exact hbreaks
    · rw [hnext] at hf
      cases hf
    · rw [hnext] at hf
      cases hf
  · rintro ⟨hreplay, hcause⟩
    rw [next_of_replayed hopen hreplay]
    by_cases hlag : feedLimit < (s.unread feed).length
    · obtain ⟨f, u, hread⟩ := readFeed_of_lag hlag
      exact ⟨f, by rw [hread]⟩
    · obtain ⟨past, r, hsplit, hnone⟩ := hcause.resolve_left hlag
      obtain ⟨f, n, hscan⟩ := scan_disconnect hnone r
      rw [← hsplit] at hscan
      exact ⟨f, by rw [readFeed_eq hlag, hscan]⟩

end Subscription

/-! ### Runs -/

/-- The event of a reading, if it is one. -/
def Reading.event? : Reading → Option Event
  | .event e => some e
  | _ => none

/-- A store, a stream of it, and what was read so far. -/
structure StreamRun where
  store : Store
  stream : Subscription
  readings : List Reading

namespace StreamRun

/-- Something is done to the store, or the stream is read. -/
inductive Turn where
  | act (x : Store.Step)
  | read

/-- Whether a turn is a read. -/
def Turn.isRead : Turn → Bool
  | .act _ => false
  | .read => true

/-- What a turn leads to. -/
def turn (w : StreamRun) : Turn → StreamRun
  | .act x => { w with store := (w.store.perform x).1 }
  | .read =>
    let r := w.stream.next w.store.feed
    { w with stream := r.2, readings := w.readings ++ [r.1] }

/-- What turns lead to. -/
def run (w : StreamRun) (ts : List Turn) : StreamRun := ts.foldl turn w

/-- The events that were read. -/
def reported (w : StreamRun) : List Event := w.readings.filterMap Reading.event?

/-- The stream has reported that it is broken. -/
def Failed (w : StreamRun) : Prop := ∃ f, Reading.broken f ∈ w.readings

/-- What a stream of a scope that was opened on a store has to report, given what the feed of the
store has become: what existed, and what was signalled since. -/
def owed (t : Store) (c : Scope) (feed : List Signal) : List Event :=
  (t.objectsIn c).map .applied ++ (feed.drop t.feed.length).filterMap (·.eventIn c)

/-- The account of a stream: what was read of it, and what of the feed it has gone past. -/
structure Accounted (t : Store) (c : Scope) (w : StreamRun) : Prop where
  /-- Nothing was read but events, and that there is nothing yet. -/
  plain : ∀ r ∈ w.readings, r = .pending ∨ ∃ e, r = .event e
  /-- The signals since the opening are those that the stream has gone past and those that it has
  not read. What was reported, and what existed and is still to be reported, is what existed and the
  events that the stream has gone past; it goes past none before it has reported what existed. -/
  account : ∃ past, w.store.feed = t.feed ++ past ++ w.stream.unread w.store.feed ∧
    .disconnect ∉ past ∧ (w.stream.replay ≠ [] → past = []) ∧
    w.reported ++ w.stream.replay.map .applied =
      (t.objectsIn c).map .applied ++ past.filterMap (·.eventIn c)

/-- The stream has reported what it owes, as far as it was read. -/
structure Faithful (t : Store) (c : Scope) (w : StreamRun) : Prop extends Accounted t c w where
  /-- The next read breaks the stream if and only if there is a reason. -/
  breaks : (∃ f, (w.stream.next w.store.feed).1 = .broken f) ↔
    w.stream.BreaksNext w.store.feed
  /-- When there is nothing more to read, everything owed was reported, and replayed it gives the
  objects of the scope. -/
  drained : (w.stream.next w.store.feed).1 = .pending →
    w.reported = owed t c w.store.feed ∧ replayed w.reported = w.store.inScope c
  /-- The stream goes on. -/
  lasts : (w.stream.next w.store.feed).1 ≠ .ended

/-- What every turn keeps as long as the stream does not break. -/
structure Keeps (t : Store) (c : Scope) (w : StreamRun) : Prop extends Accounted t c w where
  live : w.stream.Live w.store.feed c
  /-- What the stream owes, replayed, gives the objects of the scope. -/
  owing : replayed (owed t c w.store.feed) = w.store.inScope c

theorem reported_read (w : StreamRun) :
    (w.turn .read).reported =
      w.reported ++ ((w.stream.next w.store.feed).1.event?).toList := by
  rw [reported, reported, turn, List.filterMap_append]
  cases h : (w.stream.next w.store.feed).1.event? <;> simp [h]

variable {t : Store} {c : Scope} {w : StreamRun}

theorem keeps_opened (ht : t.Keyed) (c : Scope) : Keeps t c ⟨t, t.opened c, []⟩ where
  live := t.live_opened c
  plain := by simp
  account := by
    refine ⟨[], ?_, List.not_mem_nil, fun _ => rfl, by simp [reported, Store.opened]⟩
    rw [t.unread_opened, List.append_nil, List.append_nil]
  owing := by
    have howed : owed t c t.feed = (t.objectsIn c).map .applied := by
      simp [owed]
    rw [howed, Store.replayed_objectsIn ht]

/-- Whatever is done to the store, the stream owes what comes of it. -/
theorem Keeps.act (h : Keeps t c w) (x : Store.Step) : Keeps t c (w.turn (.act x)) := by
  obtain ⟨l, hfeed, hobjects⟩ := Store.inScope_perform w.store x c
  obtain ⟨past, hpast, hunbroken, hreplay, hreported⟩ := h.account
  have hunread : w.stream.unread (w.store.perform x).1.feed =
      w.stream.unread w.store.feed ++ l := by
    rw [hfeed, Subscription.unread_append h.live.position_le]
  refine ⟨⟨h.plain, ⟨past, ?_, hunbroken, hreplay, hreported⟩⟩, ?_, ?_⟩
  · change (w.store.perform x).1.feed = t.feed ++ past ++
      w.stream.unread (w.store.perform x).1.feed
    rw [hunread, ← List.append_assoc, ← hpast, hfeed]
  · change w.stream.Live (w.store.perform x).1.feed c
    rw [hfeed]
    exact h.live.append l
  · have howed : owed t c (w.store.perform x).1.feed =
        owed t c w.store.feed ++ l.filterMap (·.eventIn c) := by
      have hle : t.feed.length ≤ w.store.feed.length := by
        rw [hpast, List.length_append, List.length_append]
        omega
      rw [owed, owed, hfeed, List.drop_append_of_le_length hle, List.filterMap_append,
        List.append_assoc]
    change replayed (owed t c (w.store.perform x).1.feed) = (w.store.perform x).1.inScope c
    rw [howed, hobjects, ← h.owing, replayed, replayed, List.foldl_append]

/-- A read with which the stream goes past signals reports the event among them, if there is one. -/
theorem Keeps.pass (h : Keeps t c w) (hreplay : w.stream.replay = []) {more rest : List Signal}
    (hsplit : w.stream.unread w.store.feed = more ++ rest) (hmore : .disconnect ∉ more)
    {r : Reading} (hnext : w.stream.next w.store.feed = (r, w.stream.skip more.length))
    (hr : r = .pending ∨ ∃ e, r = .event e)
    (hevents : more.filterMap (·.eventIn c) = r.event?.toList) : Keeps t c (w.turn .read) := by
  obtain ⟨past, hpast, hunbroken, -, hreported⟩ := h.account
  have hturn : w.turn .read =
      { w with stream := w.stream.skip more.length, readings := w.readings ++ [r] } := by
    rw [turn, hnext]
  have hread := w.reported_read
  rw [hnext] at hread
  rw [hturn] at hread ⊢
  have hskip : (w.stream.skip more.length).replay = [] := hreplay
  refine ⟨⟨?_, ⟨past ++ more, ?_, by simp [hunbroken, hmore], fun hne => absurd hskip hne, ?_⟩⟩,
    h.live.skip (by simp [hsplit]), h.owing⟩
  · intro r' hr'
    rcases List.mem_append.mp hr' with hr' | hr'
    · exact h.plain r' hr'
    · rwa [List.mem_singleton.mp hr']
  · rw [Subscription.unread_skip, hsplit, List.drop_left]
    exact hpast.trans (by rw [hsplit]; simp)
  · rw [hread, hskip, List.map_nil, List.append_nil, List.filterMap_append, hevents,
      ← List.append_assoc, ← hreported, hreplay, List.map_nil, List.append_nil]

/-- A read that does not break the stream takes from what the stream has still to report. -/
theorem Keeps.read (h : Keeps t c w) (hbreaks : ¬ w.stream.BreaksNext w.store.feed) :
    Keeps t c (w.turn .read) := by
  rcases Subscription.next_split h.live.isOpen w.store.feed with
    ⟨o, r, ho, hnext⟩ | ⟨hbroken, -⟩ | ⟨hnone, past, rest, hsplit, hpast, hskip, hnext⟩
  · -- an object that existed
    obtain ⟨past, hpast, hunbroken, hreplay, hreported⟩ := h.account
    have hnil : past = [] := hreplay (by rw [ho]; exact List.cons_ne_nil _ _)
    have hturn : w.turn .read = { w with
        stream := { w.stream with replay := r }
        readings := w.readings ++ [.event (.applied o)] } := by
      rw [turn, hnext]
    have hread := w.reported_read
    rw [hnext] at hread
    rw [hturn] at hread ⊢
    refine ⟨⟨?_, ⟨past, hpast, hunbroken, fun _ => hnil, ?_⟩⟩,
      ⟨h.live.scope_eq, h.live.isOpen, h.live.position_le⟩, h.owing⟩
    · intro r' hr'
      rcases List.mem_append.mp hr' with hr' | hr'
      · exact h.plain r' hr'
      · exact Or.inr ⟨_, List.mem_singleton.mp hr'⟩
    · rw [hread, ← hreported, ho]
      simp [Reading.event?]
  · exact absurd hbroken hbreaks
  · rw [h.live.scope_eq] at hskip hnext
    rcases hnext with ⟨-, hnext⟩ | ⟨e, r, rfl, he, hnext⟩
    · exact h.pass hnone hsplit hpast hnext (Or.inl rfl) hskip
    · have hevents : (past ++ [Signal.event e]).filterMap (·.eventIn c) = [e] := by
        rw [List.filterMap_append, hskip]
        simp [Signal.eventIn, he]
      have hsplit' : w.stream.unread w.store.feed = (past ++ [Signal.event e]) ++ r := by
        rw [hsplit, List.append_cons]
      exact h.pass hnone hsplit' (by simp [hpast])
        (by rw [hnext, List.length_append, List.length_singleton]) (Or.inr ⟨e, rfl⟩) hevents

/-- A stream that has not broken has reported what it owes, as far as it was read. -/
theorem Keeps.toFaithful (h : Keeps t c w) : Faithful t c w where
  toAccounted := h.toAccounted
  breaks := Subscription.broken_iff h.live.isOpen
  drained := by
    intro hpending
    have hreported : w.reported = owed t c w.store.feed := by
      obtain ⟨past, hpast, -, -, hreported⟩ := h.account
      have hahead := h.live.next_pending (t := (w.stream.next w.store.feed).2)
        (by rw [← hpending])
      rw [Subscription.ahead, List.append_eq_nil_iff, List.map_eq_nil_iff, h.live.scope_eq]
        at hahead
      obtain ⟨⟨hreplay, hunread⟩, -⟩ := hahead
      have hsince : w.store.feed.drop t.feed.length =
          past ++ w.stream.unread w.store.feed := by
        have hdrop : (t.feed ++ (past ++ w.stream.unread w.store.feed)).drop t.feed.length =
            past ++ w.stream.unread w.store.feed := List.drop_left
        rwa [← List.append_assoc, ← hpast] at hdrop
      rw [owed, hsince, List.filterMap_append, hunread, List.append_nil, ← hreported, hreplay,
        List.map_nil, List.append_nil]
    exact ⟨hreported, by rw [hreported, h.owing]⟩
  lasts := by
    intro hended
    rcases h.live.next_cases with ⟨e, u, hu, -⟩ | ⟨u, hu, -⟩ | ⟨f, u, hu, -⟩ <;>
      rw [hu] at hended <;> cases hended

/-- From a broken stream nothing is read any more. -/
theorem readings_run_of_closed (hclosed : w.stream.closed = true) (ts : List Turn) :
    (w.run ts).readings = w.readings ++ List.replicate (ts.countP Turn.isRead) .ended := by
  induction ts generalizing w with
  | nil => simp [run]
  | cons x ts ih =>
    cases x with
    | act x =>
      have hrest := ih (w := w.turn (.act x)) hclosed
      rw [run, List.foldl_cons, ← run, hrest, List.countP_cons_of_neg (by simp [Turn.isRead])]
      rfl
    | read =>
      have hnext : w.stream.next w.store.feed = (.ended, w.stream) := by
        rw [Subscription.next, if_pos hclosed]
      have hturn : w.turn .read = { w with readings := w.readings ++ [.ended] } := by
        rw [turn, hnext]
      have hrest := ih (w := w.turn .read) (by rw [hturn]; exact hclosed)
      rw [run, List.foldl_cons, ← run, hrest, hturn, List.countP_cons_of_pos rfl,
        List.replicate_succ, List.append_assoc]
      rfl

/-- **A run keeps account, or has broken off at one of its reads**: until then it kept account, and
since then nothing was read. -/
theorem Keeps.run (h : Keeps t c w) (ts : List Turn) : Keeps t c (w.run ts) ∨
    ∃ before after f, ts = before ++ .read :: after ∧ Keeps t c (w.run before) ∧
      ((w.run before).stream.next (w.run before).store.feed).1 = .broken f ∧
      (w.run ts).readings = (w.run before).readings ++
        .broken f :: List.replicate (after.countP Turn.isRead) .ended := by
  induction ts generalizing w with
  | nil => exact Or.inl h
  | cons x ts ih =>
    have hlater : Keeps t c (w.turn x) → Keeps t c (w.run (x :: ts)) ∨
        ∃ before after f, x :: ts = before ++ .read :: after ∧ Keeps t c (w.run before) ∧
          ((w.run before).stream.next (w.run before).store.feed).1 = .broken f ∧
          (w.run (x :: ts)).readings = (w.run before).readings ++
            .broken f :: List.replicate (after.countP Turn.isRead) .ended := by
      intro hx
      rcases ih hx with hkeeps | ⟨before, after, f, rfl, hbefore, hbroken, hreadings⟩
      · exact Or.inl hkeeps
      · exact Or.inr ⟨x :: before, after, f, rfl, hbefore, hbroken, hreadings⟩
    cases x with
    | act x => exact hlater (h.act x)
    | read =>
      by_cases hbreaks : w.stream.BreaksNext w.store.feed
      · obtain ⟨f, u, hnext, hclosed⟩ : ∃ f u, w.stream.next w.store.feed = (.broken f, u) ∧
            u.closed = true := by
          rcases Subscription.next_split h.live.isOpen w.store.feed with
            ⟨o, r, ho, -⟩ | ⟨-, hbroken⟩ | ⟨hnone, past, rest, -, -, -, hnext⟩
          · rw [hbreaks.1] at ho
            cases ho
          · exact hbroken
          · obtain ⟨f, hf⟩ := (Subscription.broken_iff h.live.isOpen).mpr hbreaks
            rcases hnext with ⟨-, hnext⟩ | ⟨e, r, -, -, hnext⟩ <;> rw [hnext] at hf <;> cases hf
        have hturn : w.turn .read =
            { w with stream := u, readings := w.readings ++ [.broken f] } := by
          rw [turn, hnext]
        refine Or.inr ⟨[], ts, f, rfl, h, by simp only [StreamRun.run, List.foldl_nil, hnext], ?_⟩
        have hrest := readings_run_of_closed (w := w.turn .read) (by rw [hturn]; exact hclosed) ts
        rw [StreamRun.run, List.foldl_cons, ← StreamRun.run, hrest, hturn, List.append_assoc]
        rfl
      · exact hlater (h.read hbreaks)

theorem Keeps.not_failed (h : Keeps t c w) : ¬ w.Failed := by
  rintro ⟨f, hf⟩
  rcases h.plain _ hf with hf | ⟨e, hf⟩ <;> cases hf

/-- **A stream has no gap and no duplicate, and breaks only for a reason.** Opened on a store with
any history, it reports each object of its scope once, in the order of the keys, and then the events
of its scope; in whatever turns the store is changed and the stream is read, the stream is faithful
to the store until one of the reads breaks it, which is reported once, and nothing after it. -/
theorem faithful {xs : List Store.Step} {s : Subscription}
    (h : (Store.after xs).subscribe c = (.ok s, t)) (ts : List Turn) :
    ((t.objectsIn c).Pairwise (fun a b => compare a.key b.key = .lt) ∧
      ∀ o, o ∈ t.objectsIn c ↔ t.objects.get? o.key = some o ∧ o.key.scope = c) ∧
    (¬ (run ⟨t, s, []⟩ ts).Failed → Faithful t c (run ⟨t, s, []⟩ ts)) ∧
    ((run ⟨t, s, []⟩ ts).Failed → ∃ before after f, ts = before ++ .read :: after ∧
      ¬ (run ⟨t, s, []⟩ before).Failed ∧
      ((run ⟨t, s, []⟩ before).stream.next (run ⟨t, s, []⟩ before).store.feed).1 = .broken f ∧
      (run ⟨t, s, []⟩ ts).readings = (run ⟨t, s, []⟩ before).readings ++
        .broken f :: List.replicate (after.countP Turn.isRead) .ended) := by
  obtain ⟨rfl, ht⟩ : s = t.opened c ∧ t.Keyed := by
    rcases (Store.after xs).subscribe_eq c with hopened | ⟨f, hrefused⟩
    · rw [hopened] at h
      cases h
      exact ⟨rfl, (Store.sound_after xs).keyed⟩
    · rw [hrefused] at h
      cases h
  refine ⟨⟨Store.pairwise_objectsIn ht c, fun o => Store.mem_objectsIn_iff ht⟩, ?_⟩
  rcases (keeps_opened ht c).run ts with
    hkeeps | ⟨before, after, f, hts, hbefore, hbroken, hreadings⟩
  · exact ⟨fun _ => hkeeps.toFaithful, fun hfailed => absurd hfailed hkeeps.not_failed⟩
  · refine ⟨fun hfailed => absurd ⟨f, ?_⟩ hfailed,
      fun _ => ⟨before, after, f, hts, hbefore.not_failed, hbroken, hreadings⟩⟩
    rw [hreadings]
    exact List.mem_append_right _ List.mem_cons_self

/-- A store with a config map and a secret. -/
def pairStore : Store :=
  .after [.put ⟨.configMap, "ns", "a"⟩ ∅ ∅, .put ⟨.secret, "ns", "b"⟩ ∅ ∅]

/-- A stream of the config maps of that store, before it is read. -/
def pairRun : StreamRun :=
  ⟨{ pairStore with subscriptions := 1 }, pairStore.opened ⟨.configMap, "ns"⟩, []⟩

/-- The reader is told what exists, not of a change in another namespace, and of a deletion. -/
def deletionTurns : List Turn :=
  [.read, .act (.put ⟨.configMap, "other", "a"⟩ ∅ ∅), .act (.delete ⟨.configMap, "ns", "a"⟩), .read]

theorem faithful_deletion :
    pairStore.subscribe ⟨.configMap, "ns"⟩ = (.ok pairRun.stream, pairRun.store) ∧
      Faithful pairRun.store ⟨.configMap, "ns"⟩ (pairRun.run deletionTurns) ∧
      (pairRun.run deletionTurns).reported =
        [.applied ⟨⟨.configMap, "ns", "a"⟩, ∅, ∅, "1"⟩, .deleted ⟨.configMap, "ns", "a"⟩] ∧
      (pairRun.run (deletionTurns ++ [.act .disconnect, .read, .read])).readings =
        (pairRun.run deletionTurns).readings ++
          [.broken (.disconnected "connection dropped"), .ended] := by
  have hopen : pairStore.subscribe ⟨.configMap, "ns"⟩ = (.ok pairRun.stream, pairRun.store) := by
    rfl
  have hreadings : (pairRun.run deletionTurns).readings =
      [.event (.applied ⟨⟨.configMap, "ns", "a"⟩, ∅, ∅, "1"⟩),
        .event (.deleted ⟨.configMap, "ns", "a"⟩)] := by
    decide
  have hfailed : ¬ (pairRun.run deletionTurns).Failed := by
    rintro ⟨f, hf⟩
    rw [hreadings] at hf
    simp at hf
  exact ⟨hopen, (faithful hopen deletionTurns).2.1 hfailed, by decide, by decide⟩

end StreamRun

end LiveConfig
