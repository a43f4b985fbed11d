import LiveConfig.Trigger

/-!
# Runs of a trigger

A trigger is told that computations begin and is offered what they come to, in any order and any
number of times, while the application replies as it likes. Everything that can be seen of such a
run is a matter of which snapshots are *kept*, and which ones are kept can be read off the offers
alone: those whose properties are not the properties of the one that was kept before.

## Time

Timers count whole milliseconds, so a limit is over when the millisecond it ends in is over. That is
`Span.ceilMillis`; for a limit of whole milliseconds it is the limit itself.

## Main definitions

* `Trigger.after`, `Trigger.offers` — where a run leads to, and what its offers led to
* `Trigger.kept` — the snapshots kept in a run, each with the reply it met with
* `Offer.Accounts` — what an offer has to lead to, given the snapshot that was kept last

## Main results

* `Trigger.kept_handed_once` — the application is handed each kept snapshot once and no other one,
  the last kept one is current, the counters agree, and every further offer is accounted for
* `Trigger.accepted_past_limit` — a limit within a millisecond is not over before that millisecond
  is
-/

namespace LiveConfig

namespace Span

/-- A limit of whole milliseconds is not rounded. -/
theorem ceilMillis_ofMillis (n : Nat) : (ofMillis n).ceilMillis = n := by
  simp only [ofMillis, ceilMillis, nanosPerMilli]
  omega

/-- Rounding adds less than a millisecond. -/
theorem ceilMillis_lt (s : Span) : s.ceilMillis * nanosPerMilli < s.nanos + nanosPerMilli := by
  simp only [ceilMillis, nanosPerMilli]
  omega

end Span

namespace Reply

/-- Whether a reply comes before a limit is over. -/
def inTime (r : Reply) (limit : Span) : Bool := r.after.any (· ≤ limit.ceilMillis)

/-- Whether the application accepts before a limit is over. -/
def accepts (r : Reply) (limit : Span) : Bool := r.inTime limit && r.result.isOk

/-- A failure of the application's own is not that it took too long. -/
def Honest (r : Reply) : Prop := ∀ limit, r.result ≠ .error (.refreshTimeout limit)

theorem within_of_inTime {r : Reply} {limit : Span} (h : r.inTime limit = true) :
    ∃ d, r.after = some d ∧ d ≤ limit.ceilMillis ∧ r.within limit = (d, r.result) := by
  obtain ⟨after, result⟩ := r
  cases after with
  | none => simp [inTime] at h
  | some d =>
    have hd : d ≤ limit.ceilMillis := by simpa [inTime] using h
    exact ⟨d, rfl, hd, by simp [within, hd]⟩

theorem within_of_late {r : Reply} {limit : Span} (h : r.inTime limit = false) :
    r.within limit = (limit.ceilMillis, .error (.refreshTimeout limit)) := by
  obtain ⟨after, result⟩ := r
  cases after with
  | none => rfl
  | some d =>
    have hd : ¬ d ≤ limit.ceilMillis := by simpa [inTime] using h
    simp [within, hd]

/-- The application is waited for until it replies or the limit is over, whichever comes first. -/
theorem within_le (r : Reply) (limit : Span) : (r.within limit).1 ≤ limit.ceilMillis := by
  cases h : r.inTime limit with
  | true =>
    obtain ⟨d, -, hd, hw⟩ := within_of_inTime h
    rw [hw]
    exact hd
  | false => exact Nat.le_of_eq (congrArg Prod.fst (within_of_late h))

end Reply

namespace Counter

/-- Whether a counter is about snapshots that the application did not accept. -/
def isRefreshError : Counter → Bool
  | .refreshErrors _ => true
  | _ => false

/-- Whether a counter is about recomputations without a result. -/
def isBuildError : Counter → Bool
  | .buildErrors _ => true
  | _ => false

end Counter

namespace Trigger

/-! ### Runs -/

/-- What a trigger is told. -/
inductive Input where
  | begin
  | offer (built : Except Failure Snapshot) (reply : Reply)

/-- Whether a trigger is told that there is no snapshot. -/
def Input.isFailure : Input → Bool
  | .offer (.error _) _ => true
  | _ => false

/-- A trigger after it was told something. -/
def next (t : Trigger) : Input → Trigger
  | .begin => t.begin
  | .offer built reply => (t.offer built reply).trigger

/-- A trigger after a run. -/
def after (t : Trigger) (xs : List Input) : Trigger := xs.foldl next t

/-- What the offers of a run lead to, in order. -/
def offers (t : Trigger) : List Input → List Offer
  | [] => []
  | .begin :: r => offers t.begin r
  | .offer built reply :: r => t.offer built reply :: offers (t.offer built reply).trigger r

/-- What the application is handed in a run, in order. -/
def handed (t : Trigger) (xs : List Input) : List Snapshot := (t.offers xs).filterMap Offer.handed

/-- What is counted in a run, in order. -/
def counted (t : Trigger) (xs : List Input) : List Counter :=
  (t.offers xs).flatMap fun o => o.outcome.counters

/-! ### What is kept -/

/-- The snapshots kept behind a last one, each with the reply it meets with: those whose properties
are not the properties of the one kept before. -/
def keptAfter : Option Snapshot → List Input → List (Snapshot × Reply)
  | _, [] => []
  | last, .begin :: r => keptAfter last r
  | last, .offer (.error _) _ :: r => keptAfter last r
  | last, .offer (.ok s) reply :: r =>
    if last.map Snapshot.properties = some s.properties then keptAfter last r
    else (s, reply) :: keptAfter (some s) r

/-- The snapshots kept in a run from the start, each with the reply it meets with. -/
def kept (xs : List Input) : List (Snapshot × Reply) := keptAfter none xs

/-- The last of some kept snapshots, or the one kept before them. -/
def lastOf (last : Option Snapshot) (ks : List (Snapshot × Reply)) : Option Snapshot :=
  (ks.getLast?.map Prod.fst).or last

/-- The snapshot kept last in a run from the start. -/
def lastKept (xs : List Input) : Option Snapshot := (kept xs).getLast?.map Prod.fst

end Trigger

/-- What an offer has to lead to, if the snapshot kept last is known. -/
structure Offer.Accounts (o : Offer) (last : Option Snapshot) (limit : Span)
    (built : Except Failure Snapshot) (reply : Reply) : Prop where
  /-- The failure to build a snapshot is reported and changes nothing. -/
  failed : ∀ f, built = .error f →
    o.outcome = .buildFailed f ∧ o.handed = none ∧ o.waited = 0 ∧
      o.trigger = ⟨last, .idle, limit⟩
  /-- A snapshot with the properties of the last one is dropped. -/
  unchanged : ∀ s, built = .ok s → last.map Snapshot.properties = some s.properties →
    o.outcome = .unchanged ∧ o.handed = none ∧ o.waited = 0 ∧ o.trigger = ⟨last, .idle, limit⟩
  /-- Any other snapshot is handed to the application and kept, whatever the reply is. -/
  kept : ∀ s, built = .ok s → last.map Snapshot.properties ≠ some s.properties →
    o.handed = some s ∧ o.trigger = ⟨some s, .applied, limit⟩
  /-- If the application accepts in time, the changes since the last snapshot were applied. -/
  accepted : ∀ s, built = .ok s → last.map Snapshot.properties ≠ some s.properties →
    reply.inTime limit = true → reply.result = .ok () →
      o.outcome = .applied ((last.getD ∅).changes s)
  /-- If it fails in time, its failure is reported. -/
  refused : ∀ s f, built = .ok s → last.map Snapshot.properties ≠ some s.properties →
    reply.inTime limit = true → reply.result = .error f →
      o.outcome = .refreshFailed ((last.getD ∅).changes s) f
  /-- If it does not reply in time, that is the failure. -/
  late : ∀ s, built = .ok s → last.map Snapshot.properties ≠ some s.properties →
    reply.inTime limit = false →
      o.outcome = .refreshFailed ((last.getD ∅).changes s) (.refreshTimeout limit) ∧
        o.waited = limit.ceilMillis
  /-- Nothing else is reported as a late reply. -/
  timeout_iff : reply.Honest → ∀ s, built = .ok s →
    last.map Snapshot.properties ≠ some s.properties →
      ((∃ c l, o.outcome = .refreshFailed c (.refreshTimeout l)) ↔ reply.inTime limit = false)
  /-- The application is not waited for when the limit is over. -/
  waited_le : o.waited ≤ limit.ceilMillis

namespace Trigger

/-! ### One offer -/

theorem any_alike_iff (last : Option Snapshot) (s : Snapshot) :
    last.any (·.alike s) = true ↔ last.map Snapshot.properties = some s.properties := by
  cases last <;> simp [Snapshot.alike]

theorem offer_error (t : Trigger) (f : Failure) (r : Reply) :
    t.offer (.error f) r = ⟨{ t with phase := .idle }, .buildFailed f, none, 0⟩ := rfl

theorem offer_of_alike {t : Trigger} {s : Snapshot} (r : Reply)
    (h : t.current.map Snapshot.properties = some s.properties) :
    t.offer (.ok s) r = ⟨{ t with phase := .idle }, .unchanged, none, 0⟩ := by
  rw [offer]
  exact if_pos ((any_alike_iff _ s).mpr h)

theorem offer_of_new {t : Trigger} {s : Snapshot} (r : Reply)
    (h : t.current.map Snapshot.properties ≠ some s.properties) :
    t.offer (.ok s) r = t.hand s r := by
  rw [offer]
  exact if_neg fun ha => h ((any_alike_iff _ s).mp ha)

theorem hand_of_inTime {t : Trigger} {s : Snapshot} {r : Reply} (h : r.inTime t.limit = true) :
    (t.hand s r).outcome = match r.result with
      | .ok () => .applied (t.previous.changes s)
      | .error f => .refreshFailed (t.previous.changes s) f := by
  obtain ⟨d, -, -, hw⟩ := Reply.within_of_inTime h
  have hresult : (r.within t.limit).2 = r.result := congrArg Prod.snd hw
  rw [← hresult]
  rfl

theorem hand_of_late {t : Trigger} {s : Snapshot} {r : Reply} (h : r.inTime t.limit = false) :
    (t.hand s r).outcome = .refreshFailed (t.previous.changes s) (.refreshTimeout t.limit) ∧
      (t.hand s r).waited = t.limit.ceilMillis := by
  rw [hand, Reply.within_of_late h]
  exact ⟨rfl, rfl⟩

theorem hand_keeps (t : Trigger) (s : Snapshot) (r : Reply) :
    (t.hand s r).handed = some s ∧ (t.hand s r).trigger = ⟨some s, .applied, t.limit⟩ := ⟨rfl, rfl⟩

theorem waited_hand_le (t : Trigger) (s : Snapshot) (r : Reply) :
    (t.hand s r).waited ≤ t.limit.ceilMillis := r.within_le t.limit

theorem timeout_hand_iff {t : Trigger} {s : Snapshot} {r : Reply} (hr : r.Honest) :
    (∃ c l, (t.hand s r).outcome = .refreshFailed c (.refreshTimeout l)) ↔
      r.inTime t.limit = false := by
  cases hin : r.inTime t.limit with
  | false => exact ⟨fun _ => rfl, fun _ => ⟨_, _, (hand_of_late hin).1⟩⟩
  | true =>
    refine ⟨?_, fun h => absurd h (by decide)⟩
    rintro ⟨c, l, h⟩
    rw [hand_of_inTime hin] at h
    cases hres : r.result with
    | ok u => simp [hres] at h
    | error f =>
      rw [hres] at h
      injection h with _ hf
      exact absurd (by rw [hres, hf]) (hr l)

/-- **Every offer is accounted for**, whatever state the trigger is in. -/
theorem offer_accounts (t : Trigger) (built : Except Failure Snapshot) (reply : Reply) :
    (t.offer built reply).Accounts t.current t.limit built reply where
  failed := by rintro f rfl; exact ⟨rfl, rfl, rfl, rfl⟩
  unchanged := by
    rintro s rfl h
    rw [offer_of_alike reply h]
    exact ⟨rfl, rfl, rfl, rfl⟩
  kept := by
    rintro s rfl h
    rw [offer_of_new reply h]
    exact hand_keeps t s reply
  accepted := by
    rintro s rfl h hin hres
    rw [offer_of_new reply h, hand_of_inTime hin, hres]
    rfl
  refused := by
    rintro s f rfl h hin hres
    rw [offer_of_new reply h, hand_of_inTime hin, hres]
    rfl
  late := by
    rintro s rfl h hin
    rw [offer_of_new reply h]
    exact hand_of_late hin
  timeout_iff := by
    rintro hr s rfl h
    rw [offer_of_new reply h]
    exact timeout_hand_iff hr
  waited_le := by
    cases built with
    | error f => exact Nat.zero_le _
    | ok s =>
      by_cases h : t.current.map Snapshot.properties = some s.properties
      · rw [offer_of_alike reply h]
        exact Nat.zero_le _
      · rw [offer_of_new reply h]
        exact waited_hand_le t s reply

/-! ### Whole runs

Each statement is by induction on the run, from any trigger: what was kept before the run is the
trigger's own current snapshot. -/

@[simp] theorem after_nil (t : Trigger) : t.after [] = t := rfl

@[simp] theorem after_cons (t : Trigger) (x : Input) (xs : List Input) :
    t.after (x :: xs) = (t.next x).after xs := rfl

theorem limit_offer (t : Trigger) (built : Except Failure Snapshot) (reply : Reply) :
    (t.offer built reply).trigger.limit = t.limit := by
  cases built with
  | error f => rfl
  | ok s =>
    by_cases h : t.current.map Snapshot.properties = some s.properties
    · rw [offer_of_alike reply h]
    · rw [offer_of_new reply h]
      rfl

/-- The limit never changes. -/
theorem limit_after (t : Trigger) (xs : List Input) : (t.after xs).limit = t.limit := by
  induction xs generalizing t with
  | nil => rfl
  | cons x xs ih =>
    rw [after_cons, ih]
    cases x with
    | begin => rfl
    | offer built reply => exact limit_offer t built reply

theorem lastOf_cons (last : Option Snapshot) (s : Snapshot) (r : Reply)
    (ks : List (Snapshot × Reply)) : lastOf last ((s, r) :: ks) = lastOf (some s) ks := by
  cases ks with
  | nil => rfl
  | cons k ks => simp [lastOf, List.getLast?_cons]

/-- The current snapshot is the one kept last. -/
theorem current_after (t : Trigger) (xs : List Input) :
    (t.after xs).current = lastOf t.current (keptAfter t.current xs) := by
  induction xs generalizing t with
  | nil => simp [keptAfter, lastOf]
  | cons x xs ih =>
    rw [after_cons, ih]
    match x with
    | .begin => rfl
    | .offer (.error f) reply => rfl
    | .offer (.ok s) reply =>
      by_cases h : t.current.map Snapshot.properties = some s.properties
      · rw [next, offer_of_alike reply h, keptAfter, if_pos h]
      · rw [next, offer_of_new reply h, keptAfter, if_neg h, (hand_keeps t s reply).2, lastOf_cons]

/-- The application is handed the kept snapshots, each once and in order, and nothing else. -/
theorem handed_eq_kept (t : Trigger) (xs : List Input) :
    t.handed xs = (keptAfter t.current xs).map Prod.fst := by
  induction xs generalizing t with
  | nil => rfl
  | cons x xs ih =>
    match x with
    | .begin => exact ih t.begin
    | .offer (.error f) reply => exact ih (t.offer (.error f) reply).trigger
    | .offer (.ok s) reply =>
      have hstep : t.handed (.offer (.ok s) reply :: xs) =
          (t.offer (.ok s) reply).handed.toList ++ (t.offer (.ok s) reply).trigger.handed xs := by
        cases h : (t.offer (.ok s) reply).handed <;> simp [handed, offers, h]
      rw [hstep, ih]
      by_cases h : t.current.map Snapshot.properties = some s.properties
      · rw [offer_of_alike reply h, keptAfter, if_pos h]
        rfl
      · rw [offer_of_new reply h, keptAfter, if_neg h, (hand_keeps t s reply).1,
          (hand_keeps t s reply).2]
        rfl

theorem counted_cons_offer (t : Trigger) (built : Except Failure Snapshot) (reply : Reply)
    (xs : List Input) : t.counted (.offer built reply :: xs) =
      (t.offer built reply).outcome.counters ++ (t.offer built reply).trigger.counted xs := rfl

/-- What is counted for a snapshot that is handed over: one acceptance or one failure. -/
theorem counters_hand (t : Trigger) (s : Snapshot) (r : Reply) :
    (t.hand s r).outcome.counters = [.refreshes] ∧ r.accepts t.limit = true ∨
      (∃ l, (t.hand s r).outcome.counters = [.refreshErrors l]) ∧ r.accepts t.limit = false := by
  cases hin : r.inTime t.limit with
  | false =>
    refine Or.inr ⟨⟨_, by rw [(hand_of_late hin).1]; rfl⟩, ?_⟩
    simp [Reply.accepts, hin]
  | true =>
    cases hres : r.result with
    | ok u =>
      refine Or.inl ⟨by rw [hand_of_inTime hin, hres]; rfl, ?_⟩
      simp [Reply.accepts, hin, hres, Except.isOk, Except.toBool]
    | error f =>
      refine Or.inr ⟨⟨f.label, by rw [hand_of_inTime hin, hres]; rfl⟩, ?_⟩
      simp [Reply.accepts, hin, hres, Except.isOk, Except.toBool]

/-- The three counters of a run: kept snapshots that were accepted in time, the other kept ones, and
failures to build one. -/
theorem counted_eq (t : Trigger) (xs : List Input) :
    (t.counted xs).count .refreshes =
        (keptAfter t.current xs).countP (fun k => k.2.accepts t.limit) ∧
      (t.counted xs).countP Counter.isRefreshError =
        (keptAfter t.current xs).countP (fun k => !k.2.accepts t.limit) ∧
      (t.counted xs).countP Counter.isBuildError = xs.countP Input.isFailure := by
  induction xs generalizing t with
  | nil => exact ⟨rfl, rfl, rfl⟩
  | cons x xs ih =>
    match x with
    | .begin => exact ih t.begin
    | .offer (.error f) reply =>
      obtain ⟨h₁, h₂, h₃⟩ := ih (t.offer (.error f) reply).trigger
      rw [counted_cons_offer, offer_error, keptAfter]
      rw [offer_error] at h₁ h₂ h₃
      simp [Outcome.counters, Counter.isRefreshError, Counter.isBuildError, Input.isFailure,
        List.countP_cons, h₁, h₂, h₃]
    | .offer (.ok s) reply =>
      obtain ⟨h₁, h₂, h₃⟩ := ih (t.offer (.ok s) reply).trigger
      rw [counted_cons_offer, keptAfter]
      by_cases h : t.current.map Snapshot.properties = some s.properties
      · rw [if_pos h]
        rw [offer_of_alike reply h] at h₁ h₂ h₃ ⊢
        simp [Outcome.counters, Input.isFailure, h₁, h₂, h₃]
      · rw [if_neg h]
        rw [offer_of_new reply h] at h₁ h₂ h₃ ⊢
        rw [(hand_keeps t s reply).2] at h₁ h₂ h₃ ⊢
        rcases counters_hand t s reply with ⟨hc, ha⟩ | ⟨⟨l, hc⟩, ha⟩ <;>
          simp [hc, ha, Counter.isRefreshError, Counter.isBuildError, Input.isFailure,
            List.countP_cons, h₁, h₂, h₃]

/-- **What can be seen of a run.** After any run of a new trigger: the application was handed the
kept snapshots, each once and in order, and nothing else; the last of them is current, with its own
versions; the counters tell how often it accepted in time, how often it did not, and how often there
was no snapshot. And whatever the trigger is told next is accounted for. -/
theorem kept_handed_once (limit : Span) (xs : List Input) :
    (new limit).handed xs = (kept xs).map Prod.fst ∧
      ((new limit).after xs).current = lastKept xs ∧
      ((new limit).counted xs).count .refreshes =
        (kept xs).countP (fun k => k.2.accepts limit) ∧
      ((new limit).counted xs).countP Counter.isRefreshError =
        (kept xs).countP (fun k => !k.2.accepts limit) ∧
      ((new limit).counted xs).countP Counter.isBuildError = xs.countP Input.isFailure ∧
      ((new limit).after xs).begin = ⟨lastKept xs, .computing, limit⟩ ∧
      ∀ built reply,
        (((new limit).after xs).offer built reply).Accounts (lastKept xs) limit built reply := by
  have hcurrent : ((new limit).after xs).current = lastKept xs := by
    rw [current_after]
    simp [new, lastOf, lastKept, kept]
  have hlimit : ((new limit).after xs).limit = limit := limit_after (new limit) xs
  obtain ⟨h₁, h₂, h₃⟩ := counted_eq (new limit) xs
  refine ⟨handed_eq_kept (new limit) xs, hcurrent, h₁, h₂, h₃, ?_, fun built reply => ?_⟩
  · rw [begin, hcurrent, hlimit]
  · have h := offer_accounts ((new limit).after xs) built reply
    rwa [hcurrent, hlimit] at h

/-- A limit that ends within a millisecond is not over before that millisecond is: the application
needs two milliseconds, more than it may, but is waited for that long and not said to be late. -/
theorem accepted_past_limit :
    let limit : Span := ⟨1999999⟩
    let o := (new limit).offer (.ok ⟨.ofList [("a", "1")], ∅⟩) ⟨some 2, .ok ()⟩
    ¬ 2 * Span.nanosPerMilli ≤ limit.nanos ∧
      (¬ ∃ c l, o.outcome = .refreshFailed c (.refreshTimeout l)) ∧
      ¬ o.waited * Span.nanosPerMilli ≤ limit.nanos := by
  refine ⟨by decide, ?_, by decide⟩
  rintro ⟨c, l, h⟩
  exact absurd h nofun

end Trigger

end LiveConfig
