import LiveConfig.Failure
import LiveConfig.Metrics
import LiveConfig.Snapshot

/-!
# Triggers

A trigger keeps the snapshot that was applied last and decides whether a new one has to be applied.
A snapshot with the same properties is not. Any other is handed to the application once, and is kept
whatever the application says to it. A failure to build a snapshot changes nothing.

The application answers after some time or never; it is not waited for longer than a limit.
-/

namespace LiveConfig

/-- What a trigger is doing or did last. -/
inductive Phase where
  | idle
  | computing
  | applied
  deriving DecidableEq

/-- The word for a phase. -/
def Phase.text : Phase → String
  | .idle => "idle"
  | .computing => "computing"
  | .applied => "applied"

/-- How the application answers when it is handed a snapshot. -/
structure Reply where
  /-- After so many milliseconds, or never. -/
  after : Option Nat
  result : Except Failure Unit

namespace Reply

/-- The application accepts at once. -/
def accept : Reply := ⟨some 0, .ok ()⟩

/-- How long a reply is waited for, and what it is. A reply in the last moment counts. -/
def within (r : Reply) (limit : Span) : Nat × Except Failure Unit :=
  match r.after with
  | some d =>
    if d ≤ limit.ceilMillis then (d, r.result)
    else (limit.ceilMillis, .error (.refreshTimeout limit))
  | none => (limit.ceilMillis, .error (.refreshTimeout limit))

end Reply

/-- What became of a snapshot that was offered. -/
inductive Outcome where
  /-- The application accepted it. -/
  | applied (c : Changes)
  /-- The application has its properties already. -/
  | unchanged
  /-- There is no snapshot. -/
  | buildFailed (f : Failure)
  /-- The application was handed it but did not accept. -/
  | refreshFailed (c : Changes) (f : Failure)
  deriving DecidableEq

namespace Outcome

/-- Whether the snapshot took the place of the one before. -/
def replaced : Outcome → Bool
  | .applied _ => true
  | .refreshFailed _ _ => true
  | _ => false

/-- What is counted. -/
def counters : Outcome → List Counter
  | .applied _ => [.refreshes]
  | .unchanged => []
  | .buildFailed f => [.buildErrors f.label]
  | .refreshFailed _ f => [.refreshErrors f.label]

end Outcome

/-- The state of a trigger. -/
structure Trigger where
  /-- The snapshot that was applied last. -/
  current : Option Snapshot
  phase : Phase
  /-- How long the application may take. -/
  limit : Span
  deriving DecidableEq

/-- What offering a snapshot leads to. -/
structure Offer where
  trigger : Trigger
  outcome : Outcome
  /-- The snapshot that the application was handed, if it was. -/
  handed : Option Snapshot
  /-- For how many milliseconds the application was waited for. -/
  waited : Nat

namespace Trigger

/-- A trigger that nothing was offered to. -/
def new (limit : Span) : Trigger := ⟨none, .idle, limit⟩

/-- A computation begins. -/
def begin (t : Trigger) : Trigger := { t with phase := .computing }

/-- The snapshot to compare with, which is empty at first. -/
def previous (t : Trigger) : Snapshot := t.current.getD ∅

/-- Hand a snapshot to the application. -/
def hand (t : Trigger) (s : Snapshot) (r : Reply) : Offer :=
  let (waited, result) := r.within t.limit
  let changes := t.previous.changes s
  let outcome := match result with
    | .ok () => Outcome.applied changes
    | .error f => .refreshFailed changes f
  ⟨{ t with current := some s, phase := .applied }, outcome, some s, waited⟩

/-- Offer a snapshot, or the failure to build one. -/
def offer (t : Trigger) (built : Except Failure Snapshot) (r : Reply) : Offer :=
  match built with
  | .error f => ⟨{ t with phase := .idle }, .buildFailed f, none, 0⟩
  | .ok s =>
    if t.current.any (·.alike s) then ⟨{ t with phase := .idle }, .unchanged, none, 0⟩
    else t.hand s r

end Trigger

end LiveConfig
