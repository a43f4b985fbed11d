import LiveConfig.Proofs.Answers
import LiveConfig.Proofs.TriggerRuns
import LiveConfig.Reloader

/-!
# What a recomputation leaves behind

After a recomputation the reloader's interest is that of what the rules resolved to, if they did,
and the current properties are those of the snapshot, if there is one. Whatever the rules resolve
to, the reloader watches what it is interested in.

## Main definitions

* `Reloader.Watches` — the watcher has a task for each scope of the interest
* `Reloader.OnDuty` — a watcher runs exactly if there is something to watch
* `Reloader.Reflects` — interest and properties agree with what the rules resolved to

## Main results

* `Reloader.Watches.conclude`, `Reloader.OnDuty.conclude`, `Reloader.reflects_conclude` — all three
  hold after a recomputation
* `Reloader.OnDuty.watcher_conclude` — the watcher is replaced exactly if the interest is not the
  same as before
* `Reloader.start_eq_error`, `Reloader.start_eq_ok` — a start is a recomputation that has a
  snapshot, and fails without one
-/

namespace LiveConfig

open Watch

theorem Trigger.properties_offer (t : Trigger) (s : Snapshot) (reply : Reply) :
    (t.offer (.ok s) reply).trigger.current.map Snapshot.properties = some s.properties := by
  by_cases h : t.current.map Snapshot.properties = some s.properties
  · rw [Trigger.offer_of_alike reply h]
    exact h
  · rw [Trigger.offer_of_new reply h, (Trigger.hand_keeps t s reply).2]
    rfl

/-- A trigger that has a current snapshot never loses it for none. -/
theorem Trigger.isSome_offer {t : Trigger} (h : t.current.isSome = true)
    (built : Except Failure Snapshot) (reply : Reply) :
    (t.offer built reply).trigger.current.isSome = true := by
  cases built with
  | error f => exact h
  | ok x =>
    by_cases halike : t.current.map Snapshot.properties = some x.properties
    · rw [Trigger.offer_of_alike reply halike]
      exact h
    · rw [Trigger.offer_of_new reply halike]
      rfl

namespace Reloader

/-- The watcher is about the interest and has a task for each of its scopes. There is no watcher
only if there is no interest. -/
def Watches (r : Reloader) : Prop :=
  match r.watcher with
  | some w => w.interest = r.interest ∧ w.tasks.map (·.follower.scope) = r.interest.scopes
  | none => r.interest.isEmpty = true

/-- The interest is that of something that the rules resolved to. -/
def Informed (r : Reloader) : Prop := ∃ res, r.interest = r.interestIn res

/-- The interest is that of what the rules resolved to, and the current properties are those of its
snapshot. -/
structure Reflects (r : Reloader) (found : Except Failure Resolution) : Prop where
  informed : r.Informed
  interest_eq : ∀ {res}, found = .ok res → r.interest = r.interestIn res
  properties_eq : ∀ {res s}, found = .ok res → res.snapshot = .ok s →
    r.trigger.current.map Snapshot.properties = some s.properties

theorem publish_eq (r : Reloader) : ∃ g, r.publish = { r with gauge := g } := by
  unfold publish
  split
  · exact ⟨_, rfl⟩
  · exact ⟨r.gauge, rfl⟩

theorem updateInterest_eq (r : Reloader) (res : Resolution) :
    r.updateInterest res = r ∧ r.interest = r.interestIn res ∨
      r.updateInterest res =
        { r with interest := r.interestIn res, watcher := r.watcherFor (r.interestIn res) } := by
  unfold updateInterest
  by_cases h : r.interestIn res = r.interest ∧
      (r.watcher.isSome ∨ ¬ r.shouldWatch (r.interestIn res))
  · exact Or.inl ⟨if_pos h, h.1.symm⟩
  · exact Or.inr (if_neg h)

/-- **What a recomputation leaves behind**: the trigger after the offer, and either the old interest
and the old watcher, or the interest of what the rules resolved to and a new watcher for it. -/
theorem conclude_eq (r : Reloader) (found : Except Failure Resolution) (o : Offer) :
    ∃ g, r.conclude found o = { r with trigger := o.trigger, gauge := g } ∧
        (∀ res, found = .ok res → r.interest = r.interestIn res) ∨
      ∃ res, found = .ok res ∧ r.conclude found o = { r with
        trigger := o.trigger, gauge := g, interest := r.interestIn res
        watcher := r.watcherFor (r.interestIn res) } := by
  obtain ⟨g, hg⟩ := publish_eq { r with trigger := o.trigger }
  refine ⟨g, ?_⟩
  cases found with
  | error f => exact Or.inl ⟨hg, nofun⟩
  | ok res =>
    have hconclude : r.conclude (.ok res) o =
        ({ r with trigger := o.trigger, gauge := g } : Reloader).updateInterest res :=
      congrArg (updateInterest · res) hg
    rw [hconclude]
    rcases updateInterest_eq { r with trigger := o.trigger, gauge := g } res with
      ⟨hsame, hinterest⟩ | hnew
    · refine Or.inl ⟨hsame, ?_⟩
      rintro res' ⟨⟩
      exact hinterest
    · exact Or.inr ⟨res, rfl, hnew⟩

theorem settings_conclude (r : Reloader) (found : Except Failure Resolution) (o : Offer) :
    (r.conclude found o).settings = r.settings ∧ (r.conclude found o).options = r.options ∧
      (r.conclude found o).rules = r.rules := by
  obtain ⟨g, ⟨h, -⟩ | ⟨res, -, h⟩⟩ := r.conclude_eq found o <;> rw [h] <;> exact ⟨rfl, rfl, rfl⟩

theorem interestIn_conclude (r : Reloader) (found : Except Failure Resolution) (o : Offer)
    (res : Resolution) : (r.conclude found o).interestIn res = r.interestIn res := by
  obtain ⟨hsettings, hoptions, hrules⟩ := r.settings_conclude found o
  rw [interestIn, hsettings, hoptions, hrules, interestIn]

theorem trigger_conclude (r : Reloader) (found : Except Failure Resolution) (o : Offer) :
    (r.conclude found o).trigger = o.trigger := by
  obtain ⟨g, ⟨h, -⟩ | ⟨res, -, h⟩⟩ := r.conclude_eq found o <;> rw [h]

/-- A recomputation leaves the watcher, or puts one in its place that has not begun. -/
theorem watcher_conclude (r : Reloader) (found : Except Failure Resolution) (o : Offer) :
    (r.conclude found o).watcher = r.watcher ∨
      ∃ i, (r.conclude found o).watcher = r.watcherFor i := by
  obtain ⟨g, ⟨h, -⟩ | ⟨res, -, h⟩⟩ := r.conclude_eq found o <;> rw [h]
  · exact Or.inl rfl
  · exact Or.inr ⟨_, rfl⟩

theorem watches_watcherFor {r : Reloader} (hmode : r.settings.mode = .event) (i : Interest)
    {r' : Reloader} (hinterest : r'.interest = i) (hwatcher : r'.watcher = r.watcherFor i) :
    r'.Watches := by
  rw [Watches, hwatcher, watcherFor, shouldWatch, hmode, hinterest]
  cases hi : i.isEmpty with
  | true => rfl
  | false =>
    refine ⟨rfl, ?_⟩
    change ((i.scopes.map (Task.new · r.settings.backoff)).map (·.follower.scope)) = i.scopes
    rw [List.map_map]
    exact List.map_id _

theorem interest_updateInterest (r : Reloader) (res : Resolution) :
    (r.updateInterest res).interest = r.interestIn res := by
  rcases updateInterest_eq r res with ⟨h, hi⟩ | h <;> rw [h]
  exact hi

/-- The interest is that of the last thing the rules resolved to. -/
theorem interest_conclude (r : Reloader) (found : Except Failure Resolution) (o : Offer) :
    (r.conclude found o).interest = match found with
      | .ok res => r.interestIn res
      | .error _ => r.interest := by
  obtain ⟨g, hg⟩ := publish_eq { r with trigger := o.trigger }
  cases found with
  | error f => rw [conclude, hg]
  | ok res =>
    rw [conclude, hg]
    exact interest_updateInterest _ res

/-- The gauge shows the number of current properties. -/
theorem gauge_conclude (r : Reloader) (found : Except Failure Resolution) {o : Offer} {x : Snapshot}
    (hx : o.trigger.current = some x) :
    (r.conclude found o).gauge = gaugeValue x.properties.size := by
  have hpublish : ({ r with trigger := o.trigger } : Reloader).publish =
      { r with trigger := o.trigger, gauge := gaugeValue x.properties.size } := by
    simp only [publish, hx]
  cases found with
  | error f => rw [conclude, hpublish]
  | ok res =>
    rw [conclude, hpublish]
    rcases updateInterest_eq { r with trigger := o.trigger, gauge := gaugeValue x.properties.size }
      res with ⟨h, -⟩ | h <;> rw [h]

/-- A watcher runs exactly if the interest is to be watched. -/
def OnDuty (r : Reloader) : Prop := r.watcher.isSome = r.shouldWatch r.interest

namespace OnDuty

variable {r : Reloader}

theorem idle (settings : Settings) (options : Options) (rules : List Rule) :
    (Reloader.idle settings options rules).OnDuty := (Bool.and_false _).symm

theorem watcher_updateInterest (h : r.OnDuty) (res : Resolution) :
    (r.updateInterest res).watcher =
      if r.interestIn res = r.interest then r.watcher else r.watcherFor (r.interestIn res) := by
  rw [updateInterest]
  by_cases hi : r.interestIn res = r.interest
  · have hrest : r.watcher.isSome ∨ ¬ r.shouldWatch (r.interestIn res) := by
      rw [hi, h]
      exact Decidable.em _
    rw [if_pos ⟨hi, hrest⟩, if_pos hi]
  · rw [if_neg (hi ·.1), if_neg hi]

/-- A recomputation keeps the watcher if the interest is the same as before, and otherwise puts
another one in its place. -/
theorem watcher_conclude (h : r.OnDuty) (found : Except Failure Resolution) (o : Offer) :
    (r.conclude found o).watcher =
      if (r.conclude found o).interest = r.interest then r.watcher
      else r.watcherFor (r.conclude found o).interest := by
  rw [interest_conclude]
  obtain ⟨g, hg⟩ := publish_eq { r with trigger := o.trigger }
  cases found with
  | error f => rw [conclude, hg, if_pos rfl]
  | ok res =>
    rw [Reloader.conclude, hg]
    have hduty : ({ r with trigger := o.trigger, gauge := g } : Reloader).OnDuty := h
    exact hduty.watcher_updateInterest res

/-- A reloader stays on duty. -/
theorem conclude (h : r.OnDuty) (found : Except Failure Resolution) (o : Offer) :
    (r.conclude found o).OnDuty := by
  have hshould : ∀ i, (r.conclude found o).shouldWatch i = r.shouldWatch i := by
    intro i
    rw [shouldWatch, (r.settings_conclude found o).1, shouldWatch]
  rw [OnDuty, hshould, h.watcher_conclude]
  split
  case isTrue hsame => rw [hsame, h]
  case isFalse => rw [watcherFor]; split <;> simp_all

end OnDuty

/-- If recomputations are started by events, a reloader always watches what it is interested in. -/
theorem Watches.conclude {r : Reloader} (h : r.Watches) (hmode : r.settings.mode = .event)
    (found : Except Failure Resolution) (o : Offer) : (r.conclude found o).Watches := by
  obtain ⟨g, ⟨hc, -⟩ | ⟨res, -, hc⟩⟩ := r.conclude_eq found o
  · rw [hc]
    exact h
  · rw [hc]
    exact watches_watcherFor hmode _ rfl rfl

/-- A recomputation that was offered what the rules resolved to leaves a reloader that reflects it.
If they did not resolve, there must have been an interest before. -/
theorem reflects_conclude {r : Reloader} {found : Except Failure Resolution} {reply : Reply}
    (hinformed : (∃ res, found = .ok res) ∨ r.Informed) :
    (r.conclude found (r.offer found reply)).Reflects found := by
  have hproperties : ∀ {res s}, found = .ok res → res.snapshot = .ok s →
      (r.offer found reply).trigger.current.map Snapshot.properties = some s.properties := by
    rintro res s rfl hs
    have hbuilt : (Except.ok res : Except Failure Resolution).bind Resolution.snapshot = .ok s := hs
    rw [offer, hbuilt]
    exact Trigger.properties_offer _ s reply
  obtain ⟨g, ⟨hc, hinterest⟩ | ⟨res, rfl, hc⟩⟩ := r.conclude_eq found (r.offer found reply)
  · rw [hc]
    refine ⟨?_, fun hres => hinterest _ hres, hproperties⟩
    rcases hinformed with ⟨res, hres⟩ | hinformed
    · exact ⟨res, hinterest res hres⟩
    · exact hinformed
  · rw [hc]
    refine ⟨⟨res, rfl⟩, ?_, hproperties⟩
    rintro res' ⟨⟩
    rfl

theorem start_eq_bind (settings : Settings) (options : Options) (rules : List Rule)
    (found : Except Failure Resolution) (reply : Reply) :
    start settings options rules found reply = (found.bind Resolution.snapshot).bind fun _ =>
      let o := (idle settings options rules).offer found reply
      .ok ((idle settings options rules).conclude found o, o) := by
  cases found with
  | error f => rfl
  | ok res =>
    have hstart : start settings options rules (.ok res) reply = res.snapshot.bind fun s =>
        let o := (idle settings options rules).trigger.begin.offer (.ok s) reply
        .ok ((idle settings options rules).conclude (.ok res) o, o) := rfl
    have hbuilt : (Except.ok res : Except Failure Resolution).bind Resolution.snapshot =
        res.snapshot := rfl
    rw [hstart, offer, hbuilt]
    cases res.snapshot <;> rfl

/-- A start fails exactly if there is no snapshot. -/
theorem start_eq_error {settings : Settings} {options : Options} {rules : List Rule}
    {found : Except Failure Resolution} {reply : Reply} {f : Failure} :
    start settings options rules found reply = .error f ↔
      found.bind Resolution.snapshot = .error f := by
  rw [start_eq_bind]
  cases found.bind Resolution.snapshot with
  | error e => constructor <;> rintro ⟨⟩ <;> rfl
  | ok s => exact ⟨nofun, nofun⟩

/-- A start is a recomputation of an idle reloader that has a snapshot. -/
theorem start_eq_ok {settings : Settings} {options : Options} {rules : List Rule}
    {found : Except Failure Resolution} {reply : Reply} {r : Reloader} {o : Offer} :
    start settings options rules found reply = .ok (r, o) ↔
      ∃ res s, found = .ok res ∧ res.snapshot = .ok s ∧
        o = (idle settings options rules).offer found reply ∧
        r = (idle settings options rules).conclude found o := by
  rw [start_eq_bind]
  constructor
  · intro hstart
    obtain ⟨s, hbuilt, hpair⟩ := bind_eq_ok.mp hstart
    obtain ⟨res, hfound, hs⟩ := bind_eq_ok.mp hbuilt
    cases hpair
    exact ⟨res, s, hfound, hs, rfl, rfl⟩
  · rintro ⟨res, s, rfl, hs, rfl, rfl⟩
    have hbuilt : (Except.ok res : Except Failure Resolution).bind Resolution.snapshot = .ok s := hs
    rw [hbuilt]
    rfl

end Reloader

end LiveConfig
