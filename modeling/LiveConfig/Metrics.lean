import LiveConfig.SortedMap

/-!
# Metrics

The counters that a reloader keeps and one gauge. Each is a series with a name in the text format of
metrics, in which the value of a label stands between quotes.
-/

namespace LiveConfig

/-- What is counted. -/
inductive Counter where
  /-- An event on a watch stream for a kind of objects. -/
  | watchEvents (kind : String)
  /-- An event that reported nothing new. -/
  | watchEventsSuppressed
  /-- A watch stream for a kind of objects that had to be opened again. -/
  | watchRestarts (kind : String)
  /-- A recomputation. -/
  | recomputations
  /-- A measurement of how long a recomputation took. -/
  | recomputationDuration
  /-- A recomputation without a result, by the class of the failure. -/
  | buildErrors (label : String)
  /-- A snapshot that the application accepted. -/
  | refreshes
  /-- A snapshot that the application did not accept, by the class of the failure. -/
  | refreshErrors (label : String)
  deriving DecidableEq

namespace Counter

/-- A character of a label's value between quotes. -/
def escapeChar (c : Char) : List Char :=
  if c = '\\' then ['\\', '\\']
  else if c = '\n' then ['\\', 'n']
  else if c = '"' then ['\\', '"']
  else [c]

/-- The name of a series of which one label is given. -/
def labelled (name label value : String) : String :=
  name ++ "\x7b" ++ label ++ "=\"" ++ String.ofList (value.toList.flatMap escapeChar) ++ "\"\x7d"

/-- The name of the series of a counter. -/
def series : Counter → String
  | .watchEvents kind => labelled "config_reload_watch_events_total" "kind" kind
  | .watchEventsSuppressed => "config_reload_watch_events_suppressed_total"
  | .watchRestarts kind => labelled "config_reload_watch_restarts_total" "kind" kind
  | .recomputations => "config_reload_recomputations_total"
  | .recomputationDuration => "config_reload_recomputation_duration_seconds_count"
  | .buildErrors label => labelled "config_reload_build_errors_total" "error" label
  | .refreshes => "config_reload_refreshes_total"
  | .refreshErrors label => labelled "config_reload_refresh_errors_total" "error" label

end Counter

/-- How often each series was counted; a series that never was is absent. -/
abbrev Tally := SortedMap String Nat

namespace Tally

/-- Count a number of times. -/
def add (t : Tally) (c : Counter) (times : Nat) : Tally :=
  if times = 0 then t else t.insert c.series ((t.get? c.series).getD 0 + times)

/-- Count each of a list of counters once. -/
def addAll (t : Tally) (cs : List Counter) : Tally := cs.foldl (fun t c => t.add c 1) t

end Tally

/-- The largest value of a gauge. -/
def maxGauge : Nat := Nat.pow 2 63 - 1

/-- The value of a gauge that shows a number of things. -/
def gaugeValue (count : Nat) : Nat := min count maxGauge

end LiveConfig
