import LiveConfig.Store

/-!
# News and repetitions

A stream that is opened again reports objects that were reported before. The memory keeps, for every
object of concern, the version that was forwarded last, and only news are forwarded. An object that
is no longer of concern is forwarded once more.
-/

namespace LiveConfig.Watch

/-- A change of an object. -/
structure Change where
  key : ObjectKey
  /-- The new version; there is none if the object was removed. -/
  version : Option String
  deriving DecidableEq

/-- The change that an event reports. -/
def Change.ofEvent : Event → Change
  | .applied o => ⟨o.key, some o.version⟩
  | .deleted k => ⟨k, none⟩

/-- The last change forwarded of each object of concern. -/
abbrev Memory := SortedMap ObjectKey (Option String)

/-- What becomes of an event. -/
inductive Verdict where
  /-- It is passed on. -/
  | forward (c : Change)
  /-- It says again what was said before. -/
  | repeated
  /-- It is about an object of no concern. -/
  | unconcerned
  deriving DecidableEq

/-- Whether an event is about an object of concern. -/
def concerns (i : Interest) : Event → Bool
  | .applied o => i.covers o.key (some o.labels)
  | .deleted k => i.covers k none

/-- Judge an event and remember it. -/
def Memory.observe (i : Interest) (m : Memory) (e : Event) : Verdict × Memory :=
  let c := Change.ofEvent e
  if concerns i e then
    if m.get? c.key = some c.version then (.repeated, m)
    else (.forward c, m.insert c.key c.version)
  else if m.contains c.key then (.forward c, m.erase c.key)
  else (.unconcerned, m)

/-- The change that a verdict passes on. -/
def Verdict.change? : Verdict → Option Change
  | .forward c => some c
  | _ => none

end LiveConfig.Watch
