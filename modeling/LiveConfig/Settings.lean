import LiveConfig.Backoff
import LiveConfig.Decimal.Natural
import LiveConfig.Resolution
import LiveConfig.Text.Lowercase

/-!
# Settings

The settings of a reloader. They are read from the variables of an environment; a variable that is
not set, or whose text is not understood, leaves the setting at its standard value. Truth values are
the exception: every text that is not a word for yes means no.
-/

namespace LiveConfig

/-- What starts a recomputation. -/
inductive Mode where
  /-- Changes that are reported by the cluster. -/
  | event
  /-- The passing of a period. -/
  | polling (period : Span)
  deriving DecidableEq

/-- The settings of a reloader. -/
structure Settings where
  /-- The namespace of rules that do not have their own. -/
  space : String
  mode : Mode
  /-- How long changes are collected from the first one on. -/
  debounce : Span
  /-- The first delay before a watch stream is opened again. -/
  backoffStart : Span
  /-- The largest of these delays. -/
  backoffMax : Span
  /-- How long the application may take to accept a snapshot. -/
  refreshTimeout : Span
  monitorConfigMaps : Bool
  monitorSecrets : Bool
  /-- Whether it is a failure if an object that a rule names does not exist. -/
  failFast : Bool
  emptySelector : EmptyPolicy
  /-- The port for metrics and probes. -/
  metricsPort : Nat
  /-- The format of log lines. -/
  logFormat : String
  deriving DecidableEq

namespace EmptyPolicy

/-- The word for a policy. -/
def text : EmptyPolicy → String
  | .proceed => "proceed"
  | .fail => "fail"

/-- The policy with exactly this word. -/
def ofText? (s : String) : Option EmptyPolicy :=
  if s = "proceed" then some .proceed
  else if s = "fail" then some .fail
  else none

/-- A policy by its word in letters of either case, or what is wrong with the word. -/
def parse (s : String) : Except String EmptyPolicy :=
  let word := Text.lowercase s
  match ofText? word with
  | some p => .ok p
  | none => .error ("unknown empty selector policy '" ++ word ++ "'")

end EmptyPolicy

namespace Settings

/-- The settings if nothing is said. -/
def standard : Settings where
  space := "default"
  mode := .event
  debounce := .ofMillis 2000
  backoffStart := .ofMillis 1000
  backoffMax := .ofMillis 30000
  refreshTimeout := .ofSeconds 30
  monitorConfigMaps := true
  monitorSecrets := true
  failFast := true
  emptySelector := .proceed
  metricsPort := 5000
  logFormat := "text"

/-- The seconds between two recomputations if nothing is said. -/
def standardPeriod : Nat := 15

/-- The largest number of a port. -/
def maxPort : Nat := Nat.pow 2 16 - 1

/-- A text as a number up to a largest one. -/
def number? (largest : Nat) (s : String) : Option Nat :=
  (Decimal.natural? s.toList).filter (· ≤ largest)

/-- A text as a truth value. -/
def truth (s : String) : Bool :=
  let word := Text.lowercase s
  word == "true" || word == "1" || word == "yes" || word == "on"

section Environment

variable (environment : String → Option String)

/-- The number in a variable. -/
def numberOf (name : String) (largest standard : Nat) : Nat :=
  ((environment name).bind (number? largest)).getD standard

/-- The truth value in a variable. -/
def truthOf (name : String) (standard : Bool) : Bool := ((environment name).map truth).getD standard

/-- The span of so many milliseconds as a variable says. -/
def millisOf (name : String) (standard : Span) : Span :=
  .ofMillis (numberOf environment name maxWord standard.millis)

/-- The mode: polling if the word for it is given, and otherwise by event. -/
def modeOf : Mode :=
  if Text.lowercase ((environment "RELOAD_MODE").getD "event") = "polling" then
    .polling (.ofSeconds (numberOf environment "RELOAD_PERIOD_SECS" maxWord standardPeriod))
  else .event

/-- The settings that an environment gives. -/
def ofEnvironment : Settings where
  space := (environment "POD_NAMESPACE").getD standard.space
  mode := modeOf environment
  debounce := millisOf environment "RELOAD_DEBOUNCE_MS" standard.debounce
  backoffStart := millisOf environment "WATCH_BACKOFF_START_MS" standard.backoffStart
  backoffMax := millisOf environment "WATCH_BACKOFF_MAX_MS" standard.backoffMax
  refreshTimeout := .ofSeconds (numberOf environment "REFRESH_TIMEOUT_SECS" maxWord 30)
  monitorConfigMaps := truthOf environment "MONITOR_CONFIG_MAPS" standard.monitorConfigMaps
  monitorSecrets := truthOf environment "MONITOR_SECRETS" standard.monitorSecrets
  failFast := truthOf environment "FAIL_FAST" standard.failFast
  emptySelector := ((environment "EMPTY_SELECTOR_POLICY").bind
    (fun s => (EmptyPolicy.parse s).toOption)).getD standard.emptySelector
  metricsPort := numberOf environment "METRICS_PORT" maxPort standard.metricsPort
  logFormat := (environment "LOG_FORMAT").getD standard.logFormat

end Environment

/-- The settings for the resolution of rules. -/
def options (s : Settings) (nameQualifies : Bool) (profiles : List String) : Options where
  failFast := s.failFast
  emptySelector := s.emptySelector
  nameQualifies := nameQualifies
  profiles := profiles

/-- The part of an interest that is about monitored kinds. -/
def monitored (s : Settings) (i : Interest) : Interest :=
  i.restrict (Kind.monitored s.monitorConfigMaps s.monitorSecrets)

/-- The delays before watch streams are opened again. -/
def backoff (s : Settings) : Backoff := .new s.backoffStart s.backoffMax

end Settings

end LiveConfig
