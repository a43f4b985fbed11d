import LiveConfig.Failure
import LiveConfig.Properties.Document
import LiveConfig.Snapshot

/-!
# Handing snapshots to an application

Two ways of doing so: a request to an address where the application listens, and a file of
properties that the application reads.
-/

namespace LiveConfig.Refresh

/-- A response to a request. -/
structure Response where
  status : Nat
  body : String
  deriving DecidableEq

/-- Whether a status says that a request was accepted. -/
def isSuccess (status : Nat) : Bool := decide (200 ≤ status ∧ status < 300)

/-- What the response to a request means, if there is one. -/
def ofResponse (url : String) : Option Response → Except Failure Unit
  | none => .error (.refresh ("POST " ++ url ++ " failed"))
  | some r =>
    if isSuccess r.status then .ok ()
    else .error (.refresh ("HTTP " ++ toString r.status ++ " from " ++ url ++ ": " ++ r.body))

/-- The file that holds a snapshot. -/
def file (s : Snapshot) : String := String.ofList (Properties.write s.properties)

end LiveConfig.Refresh
