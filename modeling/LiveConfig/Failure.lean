import LiveConfig.Object
import LiveConfig.Span
import LiveConfig.Text.Quoted

/-!
# Failures

Everything that can go wrong while configuration is resolved, merged, watched or applied. A failure
is a cause; `message` words it and `label` names its class.
-/

namespace LiveConfig

/-- Why a watch stream broke off. -/
inductive LinkFault where
  /-- The connection was lost. -/
  | disconnected (reason : String)
  /-- The version from which to watch is no longer known. -/
  | expired (reason : String)
  deriving DecidableEq

/-- The wording of a broken watch stream. -/
def LinkFault.message : LinkFault → String
  | .disconnected reason => "watch stream disconnected: " ++ reason
  | .expired reason => "watch resource version expired: " ++ reason

/-- What can go wrong. -/
inductive Failure where
  /-- An object that is needed does not exist. -/
  | absent (kind : Kind) (space name : String)
  /-- No object carries the labels that are asked for. -/
  | noneSelected (kind : Kind) (space : String) (labels : Labels)
  /-- The value of an entry is not the encoded text it should be. -/
  | undecodable (key : ObjectKey) (entry reason : String)
  /-- The document in an entry is malformed; not every reader of documents gives a reason. -/
  | malformed (key : ObjectKey) (entry : String) (reason : Option String)
  /-- A request to the cluster failed. -/
  | cluster (reason : String)
  /-- A watch stream broke off. -/
  | link (fault : LinkFault)
  /-- The application did not accept a new snapshot. -/
  | refresh (reason : String)
  /-- The application took too long to accept a new snapshot. -/
  | refreshTimeout (limit : Span)
  deriving DecidableEq

namespace Failure

/-- The class of a failure. -/
def label : Failure → String
  | .absent .. => "not-found"
  | .noneSelected .. => "empty-selection"
  | .undecodable .. => "decode"
  | .malformed .. => "embedded-format"
  | .cluster _ => "cluster"
  | .link _ => "transport"
  | .refresh _ => "refresh"
  | .refreshTimeout _ => "refresh-timeout"

/-- The wording of a failure. -/
def message : Failure → String
  | .absent kind space name =>
    kind.text ++ " '" ++ name ++ "' not found in namespace '" ++ space ++ "'"
  | .noneSelected kind space labels =>
    "no " ++ kind.text ++ " in namespace '" ++ space ++ "' matches labels " ++
      Text.quotePairs labels.entries
  | .undecodable key entry reason =>
    "failed to decode '" ++ entry ++ "' of " ++ key.text ++ ": " ++ reason
  | .malformed key entry reason =>
    "failed to parse embedded document '" ++ entry ++ "' of " ++ key.text ++
      (match reason with
        | some r => ": " ++ r
        | none => "")
  | .cluster reason => "cluster request failed: " ++ reason
  | .link fault => fault.message
  | .refresh reason => "refresh failed: " ++ reason
  | .refreshTimeout limit => "refresh timed out after " ++ limit.text

end Failure

end LiveConfig
