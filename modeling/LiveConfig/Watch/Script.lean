import LiveConfig.Watch.Follower

/-!
# Scripted streams

A scope whose streams are given in advance: each time a stream is opened, the next session of the
script is played. When the script is at its end, the last stream that was opened stays silent. The
record says when streams were opened, which changes were forwarded and when, and what was counted.
-/

namespace LiveConfig.Watch

/-- What happens on a stream next. -/
inductive Cue where
  | event (e : Event)
  /-- Nothing for so many milliseconds. -/
  | pause (millis : Nat)
  | fault (f : LinkFault)

/-- What becomes of opening a stream. -/
inductive Session where
  /-- It cannot be opened. -/
  | refused (f : Failure)
  /-- It is opened, and ends behind the last of these. -/
  | stream (cues : List Cue)

/-- What was recorded, in order. -/
structure Record where
  /-- When streams were opened, or could not be opened. -/
  openings : List Nat
  changes : List (Change × Nat)
  counters : List Counter

namespace Record

/-- Nothing. -/
def empty : Record := ⟨[], [], []⟩

/-- One record behind another. -/
def append (a b : Record) : Record :=
  ⟨a.openings ++ b.openings, a.changes ++ b.changes, a.counters ++ b.counters⟩

instance : Append Record := ⟨append⟩

end Record

/-- Play the cues of a stream from a moment on: how the stream broke and when, unless the horizon was
reached first. -/
def playCues (i : Interest) (horizon : Nat) :
    Nat → Follower → List Cue → Record × Follower × Option (LinkFault × Nat)
  | now, f, [] => (.empty, f, if now < horizon then some (streamEnded, now) else none)
  | now, f, .fault x :: _ => (.empty, f, if now < horizon then some (x, now) else none)
  | now, f, .pause millis :: r => playCues i horizon (now + millis) f r
  | now, f, .event e :: r =>
    if now < horizon then
      let (v, g) := f.receive i e
      let forwarded := (v.change?.map (·, now)).toList
      let (rest, g, last) := playCues i horizon now g r
      (⟨[], forwarded, f.receiveCounters v⟩ ++ rest, g, last)
    else (.empty, f, none)

/-- Play sessions from a moment on. -/
def playSessions (i : Interest) (horizon : Nat) : Nat → Follower → List Session → Record
  | now, _, [] => if now < horizon then ⟨[now], [], []⟩ else .empty
  | now, f, session :: r =>
    if now < horizon then
      let (played, f, last) := match session with
        | .refused x => (Record.empty, f, some (notOpened x, now))
        | .stream cues => playCues i horizon now f cues
      let opened : Record := ⟨[now], [], []⟩
      match last with
      | none => opened ++ played
      | some (fault, now) =>
        let (delay, g) := f.lose fault
        opened ++ played ++ ⟨[], [], f.loseCounters⟩ ++ playSessions i horizon (now + delay) g r
    else .empty

end LiveConfig.Watch
