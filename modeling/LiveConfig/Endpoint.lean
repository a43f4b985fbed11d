/-!
# The reloader's own web server

The server tells others about metrics, that the program is alive, and whether it is ready: it is
ready once a first snapshot was applied. Each address can be read only.
-/

namespace LiveConfig.Endpoint

/-- An answer to a request. -/
structure Answer where
  status : Nat
  contentType : Option String
  deriving DecidableEq

/-- What there is to be read. -/
inductive Page where
  | metrics
  | alive
  | ready
  deriving DecidableEq

/-- The page at an address. -/
def page? (path : String) : Option Page :=
  if path = "/metrics" then some .metrics
  else if path = "/healthz" then some .alive
  else if path = "/readyz" then some .ready
  else none

/-- The content type of metrics. -/
def metricsType : String := "text/plain; version=0.0.4; charset=utf-8"

/-- What reading a page gives. -/
def Page.answer (ready : Bool) : Page → Answer
  | .metrics => ⟨200, some metricsType⟩
  | .alive => ⟨200, none⟩
  | .ready => ⟨if ready then 200 else 503, none⟩

/-- Whether a method is one for reading. -/
def reads (method : String) : Bool := method == "GET" || method == "HEAD"

/-- The path of an address, without its query. -/
def pathOf (address : String) : String :=
  String.ofList (address.toList.takeWhile (fun c => c != '?' && c != '#'))

/-- The answer to a request. -/
def answer (ready : Bool) (method address : String) : Answer :=
  match page? (pathOf address) with
  | none => ⟨404, none⟩
  | some p => if reads method then p.answer ready else ⟨405, none⟩

end LiveConfig.Endpoint
