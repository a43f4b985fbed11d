import LiveConfig.Backoff
import Mathlib.Algebra.Group.Nat.Defs
import Mathlib.Data.List.DropRight

/-!
# Exact delays

The delay before a broken stream is opened again is kept as a number that is doubled and cut off,
beside a counter that is cut off as well. What comes of it after any number of failures and received
events is a closed formula in the number of failures that came last, in which nothing is cut off but
the delay itself.

## Main definitions

* `Backoff.Occurrence`, `Backoff.after` — what a sequence of delays is told, and the sequence then
* `Backoff.inRow` — how many failures came last
* `Backoff.IsAt` — a sequence so many failures behind its start

## Main results

* `Backoff.isAt_after` — after any occurrences a sequence is where the last failures have led it
* `Backoff.delayAfter_eq_zero_iff` — which failures cost nothing
* `Backoff.delay_exact` — every delay and every counter as a formula
-/

namespace LiveConfig

/-- Whether a stream broke because a version has expired. -/
def LinkFault.isExpired : LinkFault → Bool
  | .expired _ => true
  | .disconnected _ => false

namespace Backoff

/-- What a sequence of delays is told. -/
inductive Occurrence where
  /-- An event was received. -/
  | received
  /-- A stream broke. -/
  | failed (fault : LinkFault)

namespace Occurrence

/-- Whether it is a failure. -/
def isFailure : Occurrence → Bool
  | .received => false
  | .failed _ => true

end Occurrence

/-- The sequence behind an occurrence. -/
def meet (b : Backoff) : Occurrence → Backoff
  | .received => b.reset
  | .failed _ => b.advance

/-- The sequence behind some occurrences. -/
def after (b : Backoff) (os : List Occurrence) : Backoff := os.foldl meet b

/-- How many failures came last, with nothing received since. -/
def inRow (os : List Occurrence) : Nat := (os.rtakeWhile Occurrence.isFailure).length

/-- A sequence from `base` to `limit` that is `n` failures behind its start. -/
structure IsAt (base limit n : Nat) (b : Backoff) : Prop where
  base_eq : b.base = base
  limit_eq : b.limit = limit
  current_eq : b.current = min (base * 2 ^ n) limit
  attempts_eq : b.attempts = min n maxAttempts

/-! ### Failures in a row -/

@[simp] theorem inRow_nil : inRow [] = 0 := rfl

@[simp] theorem inRow_received (os : List Occurrence) : inRow (os ++ [.received]) = 0 := by
  rw [inRow, List.rtakeWhile_concat_neg _ _ _ Bool.false_ne_true]
  rfl

@[simp] theorem inRow_failed (os : List Occurrence) (fault : LinkFault) :
    inRow (os ++ [.failed fault]) = inRow os + 1 := by
  rw [inRow, List.rtakeWhile_concat_pos _ _ _ rfl, List.length_append]
  rfl

/-- More failures make the row longer. -/
theorem inRow_failures (os : List Occurrence) (faults : List LinkFault) :
    inRow (os ++ faults.map .failed) = inRow os + faults.length := by
  induction faults generalizing os with
  | nil => simp
  | cons fault rest ih =>
    rw [List.map_cons, List.append_cons, ih, inRow_failed, List.length_cons]
    omega

/-! ### Where a sequence is -/

theorem after_append (b : Backoff) (os os' : List Occurrence) :
    b.after (os ++ os') = (b.after os).after os' :=
  List.foldl_append

section IsAt

variable {base limit n : Nat} {b : Backoff}

theorem isAt_new (base limit : Span) : (new base limit).IsAt
    (max 1 (min base.millis maxWord))
    (max (max 1 (min base.millis maxWord)) (min limit.millis maxWord)) 0 where
  base_eq := rfl
  limit_eq := rfl
  current_eq := by rw [Nat.pow_zero, Nat.mul_one, Nat.min_eq_left (Nat.le_max_left _ _)]; rfl
  attempts_eq := rfl

theorem IsAt.reset (h : b.IsAt base limit n) (hle : base ≤ limit) : b.reset.IsAt base limit 0 where
  base_eq := h.base_eq
  limit_eq := h.limit_eq
  current_eq := by
    rw [Nat.pow_zero, Nat.mul_one, Nat.min_eq_left hle]
    exact h.base_eq
  attempts_eq := rfl

/-- Doubling what was cut off at the limit is doubling, cut off at the limit: 64 bits are enough for
anything up to there. -/
theorem IsAt.advance (h : b.IsAt base limit n) (hword : limit ≤ maxWord) :
    b.advance.IsAt base limit (n + 1) where
  base_eq := h.base_eq
  limit_eq := h.limit_eq
  current_eq := by
    have hcurrent : b.advance.current = min (min (2 * b.current) maxWord) b.limit := rfl
    rw [hcurrent, h.current_eq, h.limit_eq, Nat.pow_succ, ← Nat.mul_assoc]
    omega
  attempts_eq := by
    have hattempts : b.advance.attempts = min (b.attempts + 1) maxAttempts := rfl
    rw [hattempts, h.attempts_eq]
    omega

/-- After any occurrences a sequence is where the failures have led it that came last. -/
theorem isAt_after (base limit : Span) (os : List Occurrence) : ((new base limit).after os).IsAt
    (max 1 (min base.millis maxWord))
    (max (max 1 (min base.millis maxWord)) (min limit.millis maxWord)) (inRow os) := by
  induction os using List.reverseRecOn with
  | nil => exact isAt_new base limit
  | append_singleton os o ih =>
    rw [after_append]
    cases o with
    | received =>
      rw [inRow_received]
      exact ih.reset (Nat.le_max_left _ _)
    | failed fault =>
      rw [inRow_failed]
      have hone : 1 ≤ maxWord := by decide
      exact ih.advance (by omega)

end IsAt

/-! ### Every delay -/

/-- Doubling makes no delay shorter. -/
theorem min_pow_le_min_pow {n m : Nat} (base limit : Nat) (hle : n ≤ m) :
    min (base * 2 ^ n) limit ≤ min (base * 2 ^ m) limit := by
  have hpow : 2 ^ n ≤ 2 ^ m := Nat.pow_le_pow_right (by omega) hle
  have hmul : base * 2 ^ n ≤ base * 2 ^ m := Nat.mul_le_mul_left base hpow
  omega

theorem one_le_min_pow {base limit : Nat} (n : Nat) (hbase : 1 ≤ base) (hlimit : base ≤ limit) :
    1 ≤ min (base * 2 ^ n) limit := by
  have hfirst := min_pow_le_min_pow base limit (Nat.zero_le n)
  rw [Nat.pow_zero, Nat.mul_one, Nat.min_eq_left hlimit] at hfirst
  exact Nat.le_trans hbase hfirst

/-- The delay after a failure is nothing if it is the first one and a version has expired, and the
delay of the sequence otherwise. -/
theorem IsAt.delayAfter_eq {base limit n : Nat} {b : Backoff} (h : b.IsAt base limit n)
    (fault : LinkFault) :
    b.delayAfter fault =
      if n = 0 ∧ fault.isExpired = true then 0 else min (base * 2 ^ n) limit := by
  have hfirst : b.attempts = 0 ↔ n = 0 := by
    have hone : 1 ≤ maxAttempts := by decide
    rw [h.attempts_eq]
    omega
  cases fault with
  | expired reason =>
    rw [delayAfter, h.current_eq]
    simp only [hfirst, LinkFault.isExpired, and_true]
  | disconnected reason =>
    rw [delayAfter, h.current_eq, if_neg (fun hand => Bool.false_ne_true hand.2)]

/-- **Which failures cost nothing.** -/
theorem delayAfter_eq_zero_iff (base limit : Span) (os : List Occurrence) (fault : LinkFault) :
    ((new base limit).after os).delayAfter fault = 0 ↔
      inRow os = 0 ∧ fault.isExpired = true := by
  rw [(isAt_after base limit os).delayAfter_eq fault]
  have hpos := one_le_min_pow (inRow os) (Nat.le_max_left 1 (min base.millis maxWord))
    (Nat.le_max_left _ (min limit.millis maxWord))
  split
  · simp [*]
  · constructor
    · omega
    · intro h
      contradiction

/-- **Every delay.** Whatever a sequence of delays was told since it was made, let `n` failures have
come last. The delay after one more failure is nothing if it is the first and a version has expired,
and otherwise the first delay doubled `n` times, up to the limit. So only such a failure costs
nothing; no delay is above the limit, and none is shorter than one before it in the same row. The
counter says how many failures came in a row, up to the largest number of 32 bits, so that it is not
zero behind a failure. -/
theorem delay_exact (base limit : Span) (os : List Occurrence) (fault : LinkFault) :
    let b := max 1 (min base.millis (2 ^ 64 - 1))
    let m := max b (min limit.millis (2 ^ 64 - 1))
    let n := inRow os
    let s := (new base limit).after os
    s.delayAfter fault = (if n = 0 ∧ fault.isExpired = true then 0 else min (b * 2 ^ n) m) ∧
      (s.delayAfter fault = 0 ↔ n = 0 ∧ fault.isExpired = true) ∧
      s.delayAfter fault ≤ m ∧
      (∀ faults later, s.delayAfter fault ≤
        (s.after ((fault :: faults).map .failed)).delayAfter later) ∧
      (s.meet (.failed fault)).attempts = min (n + 1) (2 ^ 32 - 1) ∧
      (s.meet (.failed fault)).attempts ≠ 0 := by
  intro b m n s
  have hat : s.IsAt b m n := isAt_after base limit os
  have hpos : 1 ≤ min (b * 2 ^ n) m :=
    one_le_min_pow n (Nat.le_max_left _ _) (Nat.le_max_left _ _)
  have hattempts : (s.meet (.failed fault)).attempts = min (n + 1) (2 ^ 32 - 1) := by
    have hfailed := (isAt_after base limit (os ++ [.failed fault])).attempts_eq
    rwa [after_append, inRow_failed] at hfailed
  refine ⟨hat.delayAfter_eq fault, delayAfter_eq_zero_iff base limit os fault, ?_, ?_, hattempts,
    ?_⟩
  · rw [hat.delayAfter_eq fault]
    split <;> omega
  · intro faults later
    -- behind the first failure of a row nothing is free any more
    have hlater : (s.after ((fault :: faults).map .failed)).IsAt b m (n + (faults.length + 1)) := by
      have h := isAt_after base limit (os ++ (fault :: faults).map .failed)
      rwa [after_append, inRow_failures] at h
    have hlonger : min (b * 2 ^ n) m ≤ min (b * 2 ^ (n + (faults.length + 1))) m :=
      min_pow_le_min_pow b m (Nat.le_add_right _ _)
    rw [hlater.delayAfter_eq later, if_neg (by omega), hat.delayAfter_eq fault]
    split
    · omega
    · exact hlonger
  · rw [hattempts]
    omega

end Backoff

end LiveConfig
