import LiveConfig.Proofs.RestartDelays
import LiveConfig.Watch.Script

/-!
# When streams are opened again

Whoever follows a scope opens a stream, receives the events that it reports, loses it, and opens the
next one after a delay. A version that has expired is worth another try at once, but only the first
time: that is meant to keep apart what is opened again and again. Yet every event that is received
begins a new row of failures, also one that only repeats what was forwarded before, and that is what
streams begin with. So if a version expires once more, the next stream has to wait exactly if the
one that is lost had reported nothing at all.

## Main definitions

* `Loss` — a stream that was lost, with what it reported and the delay before the next one
* `losses` — those of a run that is given in advance
* `Loss.history` — the same as a sequence of delays is told it

## Main results

* `openings_playSessions`, `changes_playSessions` — the record of a run in terms of its losses
* `after_losses` — where the delays are after some losses
* `reopened_at_once_iff` — which streams are opened at once
* `openings_replicate` — a stream that repeats an event and expires is opened at once, for ever
-/

namespace LiveConfig.Watch

open Backoff (Occurrence)

/-- A stream that was lost, or could not be opened. -/
structure Loss where
  /-- What it reported. -/
  received : List Event
  /-- What of that was passed on, and when. -/
  forwarded : List (Change × Nat)
  fault : LinkFault
  /-- When it was lost. -/
  moment : Nat
  /-- How long it took from then until the next one was opened. -/
  delay : Nat
  deriving DecidableEq

namespace Loss

/-- When the next stream was opened. -/
def reopened (l : Loss) : Nat := l.moment + l.delay

/-- What a sequence of delays is told of a stream. -/
def history (l : Loss) : List Occurrence := l.received.map (fun _ => .received) ++ [.failed l.fault]

end Loss

/-- The events that cues report before they break off. -/
def Cue.events : List Cue → List Event
  | [] => []
  | .fault _ :: _ => []
  | .pause _ :: r => events r
  | .event e :: r => e :: events r

/-- The events that a session reports. -/
def Session.events : Session → List Event
  | .refused _ => []
  | .stream cues => Cue.events cues

/-- Play a session from a moment on: how it broke and when, unless the horizon was reached first. -/
def playSession (i : Interest) (horizon now : Nat) (f : Follower) :
    Session → Record × Follower × Option (LinkFault × Nat)
  | .refused x => (.empty, f, some (notOpened x, now))
  | .stream cues => playCues i horizon now f cues

/-- The streams that are lost while sessions are played from a moment on. -/
def losses (i : Interest) (horizon : Nat) : Nat → Follower → List Session → List Loss
  | _, _, [] => []
  | now, f, session :: r =>
    if now < horizon then
      match playSession i horizon now f session with
      | (_, _, none) => []
      | (played, g, some (fault, lost)) =>
        let (delay, g) := g.lose fault
        ⟨session.events, played.changes, fault, lost, delay⟩ ::
          losses i horizon (lost + delay) g r
    else []

/-! ### One stream after the other -/

section Run

variable {i : Interest} {horizon now : Nat} {f g : Follower} {session : Session} {played : Record}

theorem playSessions_of_over (hnow : ¬ now < horizon) (sessions : List Session) :
    playSessions i horizon now f sessions = .empty ∧ losses i horizon now f sessions = [] := by
  cases sessions with
  | nil => simp [playSessions, losses, hnow]
  | cons session r => cases session <;> simp [playSessions, losses, hnow]

theorem playSessions_of_kept (hnow : now < horizon) (r : List Session)
    (h : playSession i horizon now f session = (played, g, none)) :
    playSessions i horizon now f (session :: r) = ⟨[now], [], []⟩ ++ played ∧
      losses i horizon now f (session :: r) = [] := by
  constructor
  · cases session with
    | refused x => cases h
    | stream cues =>
      rw [playSession] at h
      rw [playSessions, if_pos hnow, h]
  · rw [losses, if_pos hnow, h]

theorem playSessions_of_lost {fault : LinkFault} {lost : Nat} (hnow : now < horizon)
    (r : List Session) (h : playSession i horizon now f session = (played, g, some (fault, lost))) :
    playSessions i horizon now f (session :: r) =
        ⟨[now], [], []⟩ ++ played ++ ⟨[], [], g.loseCounters⟩ ++
          playSessions i horizon (lost + (g.lose fault).1) (g.lose fault).2 r ∧
      losses i horizon now f (session :: r) =
        ⟨session.events, played.changes, fault, lost, (g.lose fault).1⟩ ::
          losses i horizon (lost + (g.lose fault).1) (g.lose fault).2 r := by
  constructor
  · cases session with
    | refused x =>
      cases h
      rw [playSessions, if_pos hnow]
    | stream cues =>
      rw [playSession] at h
      rw [playSessions, if_pos hnow, h]
  · rw [losses, if_pos hnow, h]

end Run

/-! ### The record of a run -/

theorem openings_append (a b : Record) : (a ++ b).openings = a.openings ++ b.openings := rfl

theorem changes_append (a b : Record) : (a ++ b).changes = a.changes ++ b.changes := rfl

theorem openings_playCues (i : Interest) (horizon now : Nat) (f : Follower) (cues : List Cue) :
    (playCues i horizon now f cues).1.openings = [] := by
  induction cues generalizing now f with
  | nil => rfl
  | cons cue r ih =>
    cases cue with
    | fault x => rfl
    | pause millis => exact ih _ _
    | event e =>
      rw [playCues]
      split
      · rw [openings_append, ih]
        rfl
      · rfl

theorem openings_playSession (i : Interest) (horizon now : Nat) (f : Follower) (session : Session) :
    (playSession i horizon now f session).1.openings = [] := by
  cases session with
  | refused x => rfl
  | stream cues => exact openings_playCues i horizon now f cues

/-- **When streams are opened:** at the start, and again after each loss. -/
theorem openings_playSessions (i : Interest) (horizon now : Nat) (f : Follower)
    (sessions : List Session) : (playSessions i horizon now f sessions).openings =
      (now :: (losses i horizon now f sessions).map Loss.reopened).filter (· < horizon) := by
  induction sessions generalizing now f with
  | nil => by_cases hnow : now < horizon <;> simp [playSessions, losses, hnow, Record.empty]
  | cons session r ih =>
    by_cases hnow : now < horizon
    · have hopenings := openings_playSession i horizon now f session
      rcases hplay : playSession i horizon now f session with ⟨played, g, _ | ⟨fault, lost⟩⟩
      all_goals rw [hplay] at hopenings
      · obtain ⟨hrun, hlosses⟩ := playSessions_of_kept hnow r hplay
        rw [hrun, hlosses, openings_append, hopenings]
        simp [hnow]
      · obtain ⟨hrun, hlosses⟩ := playSessions_of_lost hnow r hplay
        rw [hrun, hlosses, openings_append, openings_append, openings_append, hopenings, ih]
        simp [hnow, Loss.reopened]
    · rw [(playSessions_of_over hnow _).1, (playSessions_of_over hnow _).2]
      simp [hnow, Record.empty]

/-- What was passed on of streams that were lost is in the record. -/
theorem changes_playSessions (i : Interest) (horizon now : Nat) (f : Follower)
    (sessions : List Session) : (losses i horizon now f sessions).flatMap Loss.forwarded <+:
      (playSessions i horizon now f sessions).changes := by
  induction sessions generalizing now f with
  | nil => exact List.nil_prefix
  | cons session r ih =>
    by_cases hnow : now < horizon
    · rcases hplay : playSession i horizon now f session with ⟨played, g, _ | ⟨fault, lost⟩⟩
      · rw [(playSessions_of_kept hnow r hplay).2]
        exact List.nil_prefix
      · obtain ⟨hrun, hlosses⟩ := playSessions_of_lost hnow r hplay
        rw [hrun, hlosses, changes_append, changes_append, List.append_nil, changes_append,
          List.nil_append, List.flatMap_cons, List.prefix_append_right_inj]
        exact ih _ _
    · rw [(playSessions_of_over hnow _).2]
      exact List.nil_prefix

/-! ### Where the delays are -/

/-- Events only ever bring the delays back to their start. -/
theorem backoff_playCues {i : Interest} {horizon now : Nat} {f : Follower} {cues : List Cue}
    (h : (playCues i horizon now f cues).2.2.isSome = true) :
    (playCues i horizon now f cues).2.1.backoff =
      f.backoff.after ((Cue.events cues).map fun _ => .received) := by
  induction cues generalizing now f with
  | nil => rfl
  | cons cue r ih =>
    cases cue with
    | fault x => rfl
    | pause millis => exact ih h
    | event e =>
      by_cases hnow : now < horizon
      · rw [playCues, if_pos hnow] at h ⊢
        exact ih h
      · rw [playCues, if_neg hnow] at h
        cases h

theorem backoff_playSession {i : Interest} {horizon now : Nat} {f g : Follower} {session : Session}
    {played : Record} {last : LinkFault × Nat}
    (h : playSession i horizon now f session = (played, g, some last)) :
    g.backoff = f.backoff.after (session.events.map fun _ => .received) := by
  cases session with
  | refused x =>
    cases h
    rfl
  | stream cues =>
    rw [playSession] at h
    have hcues : (playCues i horizon now f cues).2.1.backoff =
        f.backoff.after ((Cue.events cues).map fun _ => .received) :=
      backoff_playCues (by rw [h]; rfl)
    rwa [h] at hcues

/-- **Every delay of a run** is that of a sequence that is told the history of the run. -/
theorem delay_losses {i : Interest} {horizon now : Nat} {f : Follower} {sessions : List Session}
    {n : Nat} {l : Loss} (hl : (losses i horizon now f sessions)[n]? = some l) :
    l.delay = (f.backoff.after (((losses i horizon now f sessions).take n).flatMap Loss.history ++
      l.received.map fun _ => .received)).delayAfter l.fault := by
  induction sessions generalizing now f n with
  | nil => cases hl
  | cons session r ih =>
    by_cases hnow : now < horizon
    · rcases hplay : playSession i horizon now f session with ⟨played, g, _ | ⟨fault, lost⟩⟩
      · rw [(playSessions_of_kept hnow r hplay).2] at hl
        cases hl
      · have hback := backoff_playSession hplay
        rw [(playSessions_of_lost hnow r hplay).2] at hl ⊢
        cases n with
        | zero =>
          cases hl
          exact congrArg (Backoff.delayAfter · fault) hback
        | succ n =>
          have hlost : (g.lose fault).2.backoff =
              f.backoff.after (session.events.map (fun _ => .received) ++ [.failed fault]) := by
            rw [Backoff.after_append, ← hback]
            rfl
          rw [ih hl, hlost, ← Backoff.after_append, ← List.append_assoc]
          rfl
    · rw [(playSessions_of_over hnow _).2] at hl
      cases hl

/-! ### Streams that are opened at once -/

/-- Whatever has failed before, a stream that reported anything begins a new row of failures. -/
theorem inRow_received_iff {ls : List Loss} (l : Loss) :
    Backoff.inRow (ls.flatMap Loss.history ++ l.received.map fun _ => .received) = 0 ↔
      ls = [] ∨ l.received ≠ [] := by
  rcases List.eq_nil_or_concat l.received with hnone | ⟨es, e, hlast⟩
  · rw [hnone, List.map_nil, List.append_nil]
    rcases List.eq_nil_or_concat ls with rfl | ⟨ls', l', rfl⟩
    · simp
    · simp [Loss.history, ← List.append_assoc]
  · rw [hlast, List.concat_eq_append, List.map_append, ← List.append_assoc, List.map_singleton,
      Backoff.inRow_received]
    simp

/-- **Which streams are opened at once.** However sessions go and whatever the interest and the
delays, streams are opened at the start and again after each loss, and the record has all that was
passed on of lost streams. After a loss nothing is waited for if and only if a version had expired,
and the stream was the first one or had reported something, be it passed on or not. -/
theorem reopened_at_once_iff (i : Interest) (horizon now : Nat) (scope : Scope) (base limit : Span)
    (sessions : List Session) :
    let f : Follower := .new scope (.new base limit)
    let ls := losses i horizon now f sessions
    (playSessions i horizon now f sessions).openings =
        (now :: ls.map Loss.reopened).filter (· < horizon) ∧
      ls.flatMap Loss.forwarded <+: (playSessions i horizon now f sessions).changes ∧
      ∀ n l, ls[n]? = some l →
        (l.delay = 0 ↔ l.fault.isExpired = true ∧ (n = 0 ∨ l.received ≠ [])) := by
  intro f ls
  refine ⟨openings_playSessions _ _ _ _ _, changes_playSessions _ _ _ _ _, fun n l hl => ?_⟩
  have hdelay : l.delay = ((Backoff.new base limit).after ((ls.take n).flatMap Loss.history ++
      l.received.map fun _ => .received)).delayAfter l.fault := delay_losses hl
  have hfirst : ls.take n = [] ↔ n = 0 := by
    have hn : n < ls.length := (List.getElem?_eq_some_iff.mp hl).1
    rw [List.take_eq_nil_iff, or_iff_left (List.ne_nil_of_length_pos (Nat.zero_lt_of_lt hn))]
  rw [hdelay, Backoff.delayAfter_eq_zero_iff, inRow_received_iff, hfirst, and_comm]

/-- A version expires, and expires again on the next stream before that has reported anything. -/
theorem reopened_at_once_silent :
    let k : ObjectKey := ⟨.secret, "ns", "app"⟩
    let gone : LinkFault := .expired "410 Gone"
    let ls := losses (.addKey ∅ k) 10000 0 (.new k.scope (.new (.ofMillis 1000) (.ofMillis 30000)))
      [.stream [.event (.applied ⟨k, ∅, ∅, "1"⟩), .fault gone], .stream [.fault gone]]
    let l : Loss := ⟨[], [], gone, 0, 2000⟩
    ls[1]? = some l ∧ (l.delay = 0 ↔ l.fault.isExpired = true ∧ (1 = 0 ∨ l.received ≠ [])) := by
  intro k gone ls l
  have hl : ls[1]? = some l := by decide
  exact ⟨hl, (reopened_at_once_iff (.addKey ∅ k) 10000 0 k.scope (.ofMillis 1000) (.ofMillis 30000)
    _).2.2 1 l hl⟩

/-- A version expires, the next stream repeats what was passed on before, and the version expires
again: nothing was passed on in between, and both times a stream is opened at once. -/
theorem reopened_at_once_again :
    let k : ObjectKey := ⟨.secret, "ns", "app"⟩
    let e : Event := .applied ⟨k, ∅, ∅, "1"⟩
    let gone : LinkFault := .expired "410 Gone"
    losses (.addKey ∅ k) 10000 0 (.new k.scope (.new (.ofMillis 1000) (.ofMillis 30000)))
      [.stream [.event e, .fault gone], .stream [.event e, .fault gone]] =
        [⟨[e], [(⟨k, some "1"⟩, 0)], gone, 0, 0⟩, ⟨[e], [], gone, 0, 0⟩] := by
  decide

/-- **There is no end to it.** As often as streams repeat an event and expire, so often the next one
is opened at the same moment. -/
theorem openings_replicate {i : Interest} {horizon now : Nat} (hnow : now < horizon) (f : Follower)
    (e : Event) (reason : String) (n : Nat) :
    (playSessions i horizon now f
      (List.replicate n (.stream [.event e, .fault (.expired reason)]))).openings =
        List.replicate (n + 1) now := by
  induction n generalizing f with
  | zero => simp [playSessions, hnow]
  | succ n ih =>
    have hplay : playSession i horizon now f (.stream [.event e, .fault (.expired reason)]) =
        (⟨[], ((f.receive i e).1.change?.map (·, now)).toList,
          f.receiveCounters (f.receive i e).1⟩ ++ .empty, (f.receive i e).2,
          some (.expired reason, now)) := by
      simp only [playSession, playCues, if_pos hnow]
    rw [List.replicate_succ, (playSessions_of_lost hnow _ hplay).1]
    exact congrArg (now :: ·) (ih _)

end LiveConfig.Watch
