import LiveConfig.Failure

/-!
# Growing delays

The delay before a broken stream is opened again. Each failure doubles it up to a limit, and each
event that is received brings it back to the start. The first failure of a row costs nothing if it
only says that a version has expired.
-/

namespace LiveConfig

/-- The largest number of 64 bits. -/
def maxWord : Nat := Nat.pow 2 64 - 1

/-- The largest number of attempts that is told apart from smaller ones. -/
def maxAttempts : Nat := Nat.pow 2 32 - 1

/-- A sequence of delays in milliseconds. -/
structure Backoff where
  /-- The first delay. -/
  base : Nat
  /-- The largest delay. -/
  limit : Nat
  /-- The next delay. -/
  current : Nat
  /-- How many failures came in a row. -/
  attempts : Nat
  deriving DecidableEq

namespace Backoff

/-- The sequence from a first delay of at least a millisecond up to a largest one, which is no
smaller than the first. -/
def new (base limit : Span) : Backoff :=
  let b := max 1 (min base.millis maxWord)
  ⟨b, max b (min limit.millis maxWord), b, 0⟩

/-- The sequence behind its next delay. What does not fit into 64 bits is cut off there, and again at
the limit. -/
def advance (b : Backoff) : Backoff :=
  { b with current := min (min (2 * b.current) maxWord) b.limit
           attempts := min (b.attempts + 1) maxAttempts }

/-- The sequence back at its start. -/
def reset (b : Backoff) : Backoff := { b with current := b.base, attempts := 0 }

/-- The delay after a stream broke: nothing for the first of a row of failures if a version has
expired, otherwise the next delay of the sequence. -/
def delayAfter (b : Backoff) : LinkFault → Nat
  | .expired _ => if b.attempts = 0 then 0 else b.current
  | .disconnected _ => b.current

end Backoff

end LiveConfig
