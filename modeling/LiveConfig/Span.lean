/-!
# Spans of time

A span of time in whole nanoseconds. In messages it is given in the largest unit of which it has at
least one, with a decimal fraction if need be. Clocks and timers count milliseconds.
-/

namespace LiveConfig

/-- A span of time. -/
structure Span where
  nanos : Nat
  deriving DecidableEq

namespace Span

/-- So many nanoseconds in a millisecond. -/
def nanosPerMilli : Nat := 1000000

/-- A span of so many milliseconds. -/
def ofMillis (n : Nat) : Span := ⟨n * nanosPerMilli⟩

/-- A span of so many seconds. -/
def ofSeconds (n : Nat) : Span := ofMillis (n * 1000)

/-- The whole milliseconds of a span. -/
def millis (s : Span) : Nat := s.nanos / nanosPerMilli

/-- The milliseconds of a span, a begun one counted in full. -/
def ceilMillis (s : Span) : Nat := (s.nanos + (nanosPerMilli - 1)) / nanosPerMilli

/-- The digits of `n / 10 ^ places` behind the point, without zeros at the end. -/
def fractionDigits (n : Nat) : Nat → List Char
  | 0 => []
  | places + 1 =>
    let unit := Nat.pow 10 places
    if n = 0 then []
    else Char.ofNat ('0'.toNat + n / unit) :: fractionDigits (n % unit) places

/-- A number of units and a rest of `rest / 10 ^ places` units. -/
def inUnits (whole rest places : Nat) (unit : String) : String :=
  if rest = 0 then toString whole ++ unit
  else toString whole ++ "." ++ String.ofList (fractionDigits rest places) ++ unit

/-- A span in messages. -/
def text (s : Span) : String :=
  if 1000000000 ≤ s.nanos then inUnits (s.nanos / 1000000000) (s.nanos % 1000000000) 9 "s"
  else if 1000000 ≤ s.nanos then inUnits (s.nanos / 1000000) (s.nanos % 1000000) 6 "ms"
  else if 1000 ≤ s.nanos then inUnits (s.nanos / 1000) (s.nanos % 1000) 3 "µs"
  else toString s.nanos ++ "ns"

end Span

end LiveConfig
