import LiveConfig.Deployment
import LiveConfig.Proofs.Reloading
import LiveConfig.Proofs.Requests

/-!
# Whole runs of a reloader

A reloader is started once and then recomputes again and again, while the cluster answers as it
likes, every request anew, and fails when it likes; the application replies as it likes; and between
two recomputations the watch tasks do whatever they do. Interest, watcher, current snapshot and
gauge are updated at different points of a recomputation, and each under a condition of its own. Yet
they never get out of step with each other, nor with what the rules last resolved to.

## Main definitions

* `Session` — a reloader in use, with what was noted since its start
* `Session.begin`, `Session.next`, `Session.after` — a start, one recomputation, and many
* `Session.Replaces`, `Session.Keeps` — what a recomputation does to the watcher, whatever has
  become of that
* `Session.InStep` — the invariant of all these
* `Session.Coherent` — what can be relied on at any time, and for what comes next

## Main results

* `Session.InStep.next`, `Session.InStep.after` — one recomputation, then many
* `Session.watcher_after` — while the answers stay the same, no watcher is replaced but once
* `Session.coherent_after_begin` — a start fails if there is nothing to begin with, and after every
  other one all that is relied on is so
* `Deployment.exists_turn` — a deployment that recomputes is such a run
-/

namespace LiveConfig

open Watch (Watcher)

/-- What was noted since the start of a reloader. -/
structure Journal where
  /-- How often the cluster was asked. -/
  asked : Nat
  /-- What the rules resolved to, each time that they did. -/
  resolved : List Resolution
  /-- What the application was handed, in order. -/
  handed : List Snapshot

/-- A reloader in use. -/
structure Session where
  reloader : Reloader
  journal : Journal

/-- What is not up to a reloader until it has recomputed once more. -/
structure Session.Turn where
  /-- What becomes of its watcher. -/
  drift : Watcher → Watcher
  /-- How the application replies. -/
  reply : Reply

/-- Something becomes of the watcher. -/
def Reloader.drift (f : Watcher → Watcher) (r : Reloader) : Reloader :=
  { r with watcher := r.watcher.map f }

theorem Reloader.OnDuty.drift {r : Reloader} (h : r.OnDuty) (f : Watcher → Watcher) :
    (r.drift f).OnDuty := by
  rw [OnDuty, Reloader.drift, Option.isSome_map]
  exact h

namespace Session

variable (h : Nat → Cluster (Except Failure))

/-- What rules resolve to after a number of requests, and the number of requests then. -/
def resolveFrom (o : Options) (space : String) (rules : List Rule) (asked : Nat) :
    Except Failure Resolution × Nat :=
  (resolve (.inTurn h) o space rules).runFrom asked

/-- Start a reloader. What was noted remains if that fails. -/
def begin (settings : Settings) (options : Options) (rules : List Rule) (reply : Reply) :
    Except Failure Reloader × Journal :=
  let found := resolveFrom h options settings.space rules 0
  let started := Reloader.start settings options rules found.1 reply
  (started.map Prod.fst,
    ⟨found.2, found.1.toOption.toList, (started.toOption.bind (·.2.handed)).toList⟩)

/-- What the rules resolve to next. -/
def found (s : Session) : Except Failure Resolution :=
  (resolveFrom h s.reloader.options s.reloader.settings.space s.reloader.rules s.journal.asked).1

/-- The number of requests then. -/
def askedNext (s : Session) : Nat :=
  (resolveFrom h s.reloader.options s.reloader.settings.space s.reloader.rules s.journal.asked).2

/-- Recompute. -/
def next (s : Session) (t : Turn) : Session :=
  let found := s.found h
  let (r, o) := (s.reloader.drift t.drift).recompute found t.reply
  ⟨r, s.askedNext h, s.journal.resolved ++ found.toOption.toList,
    s.journal.handed ++ o.handed.toList⟩

/-- Recompute again and again. -/
def after (s : Session) (ts : List Turn) : Session := ts.foldl (next h) s

/-- A recomputation puts a new watcher in place, whatever has become of the old one. -/
def Replaces (s : Session) (reply : Reply) : Prop :=
  ∀ f, (s.next h ⟨f, reply⟩).reloader.watcher =
    some (.spawn (s.next h ⟨f, reply⟩).reloader.interest s.reloader.settings.backoff)

/-- A recomputation keeps the watcher, whatever has become of it. -/
def Keeps (s : Session) (reply : Reply) : Prop :=
  ∀ f, (s.next h ⟨f, reply⟩).reloader.watcher = s.reloader.watcher.map f

/-- What can be relied on after a start with some settings, options and rules. -/
structure Coherent (settings : Settings) (options : Options) (rules : List Rule) (s : Session) :
    Prop where
  /-- The interest is that of what the rules resolved to the last time that they did, whether or not
  a snapshot came of it. -/
  interest_eq : ∃ res, s.journal.resolved.getLast? = some res ∧
    s.reloader.interest = settings.monitored (.ofRules options settings.space rules res)
  /-- A watcher runs exactly if recomputations are started by events and there is any interest. -/
  watching_iff : s.reloader.watcher.isSome = true ↔
    settings.mode = .event ∧ s.reloader.interest.isEmpty = false
  /-- If they are not started by events, nothing is ever asked of a store but in recomputations:
  wherever the reloader is deployed, nothing happens when the tasks have their turns. -/
  unsubscribed : settings.mode ≠ .event → ∀ d : Deployment, d.reloader = s.reloader →
    d.settle = d ∧ ∀ n, d.pass n = { d with now := d.now + n }
  /-- The gauge shows the number of current properties. -/
  gauge_eq : ∃ x, s.reloader.trigger.current = some x ∧
    s.reloader.gauge = min x.properties.size maxGauge
  /-- A recomputation that fails leaves the current snapshot, and hands out nothing. -/
  failed : ∀ t f, (s.found h).bind Resolution.snapshot = .error f →
    (s.next h t).reloader.trigger.current = s.reloader.trigger.current ∧
      (s.next h t).journal.handed = s.journal.handed
  /-- A recomputation replaces a watcher that runs if the interest is another one than before, and
  otherwise keeps it. -/
  replaces_iff : ∀ t, s.reloader.watcher.isSome = true →
    (s.next h t).reloader.interest.isEmpty = false →
      (s.Replaces h t.reply ↔ (s.next h t).reloader.interest ≠ s.reloader.interest) ∧
      (s.Keeps h t.reply ↔ (s.next h t).reloader.interest = s.reloader.interest)
  /-- As long as the answers stay the same, all recomputations behind the first keep the watcher
  that the first has left. -/
  settled : ∀ c t ts, (∀ i, s.journal.asked ≤ i → i < (s.after h (t :: ts)).journal.asked →
      h i = c) →
    (s.after h (t :: ts)).reloader.watcher =
      ts.foldl (fun w t => w.map t.drift) (s.next h t).reloader.watcher

/-! ### One recomputation -/

section Next

variable {h} (s : Session) (t : Turn)

theorem reloader_next : (s.next h t).reloader =
    (s.reloader.drift t.drift).conclude (s.found h) (s.reloader.offer (s.found h) t.reply) := rfl

theorem resolved_next : (s.next h t).journal.resolved =
    s.journal.resolved ++ (s.found h).toOption.toList := rfl

theorem handed_next : (s.next h t).journal.handed =
    s.journal.handed ++ (s.reloader.offer (s.found h) t.reply).handed.toList := rfl

/-- The interest after a recomputation has nothing to do with what becomes of the watcher. -/
theorem interest_next : (s.next h t).reloader.interest = match s.found h with
    | .ok res => s.reloader.interestIn res
    | .error _ => s.reloader.interest := by
  rw [reloader_next, Reloader.interest_conclude]
  rfl

theorem settings_next : (s.next h t).reloader.settings = s.reloader.settings ∧
    (s.next h t).reloader.options = s.reloader.options ∧
    (s.next h t).reloader.rules = s.reloader.rules := by
  rw [reloader_next]
  exact Reloader.settings_conclude _ _ _

theorem interestIn_next (res : Resolution) :
    (s.next h t).reloader.interestIn res = s.reloader.interestIn res := by
  rw [reloader_next, Reloader.interestIn_conclude]
  rfl

theorem trigger_next : (s.next h t).reloader.trigger =
    (s.reloader.offer (s.found h) t.reply).trigger := by
  rw [reloader_next, Reloader.trigger_conclude]

/-- No request is taken back. -/
theorem asked_le_next : s.journal.asked ≤ (s.next h t).journal.asked :=
  (resolve_actsAs h (h 0) _ _ _ s.journal.asked).1

/-- If one cluster answers all requests of a recomputation, then the rules resolve to what they
resolve to there. -/
theorem found_eq {c : Cluster (Except Failure)}
    (hc : ∀ i, s.journal.asked ≤ i → i < (s.next h t).journal.asked → h i = c) :
    s.found h = resolve c s.reloader.options s.reloader.settings.space s.reloader.rules :=
  (resolve_actsAs h c _ _ _ s.journal.asked).2 hc

end Next

theorem after_cons (s : Session) (t : Turn) (ts : List Turn) :
    s.after h (t :: ts) = (s.next h t).after h ts := rfl

theorem asked_le_after (s : Session) (ts : List Turn) :
    s.journal.asked ≤ (s.after h ts).journal.asked := by
  induction ts generalizing s with
  | nil => exact Nat.le_refl _
  | cons t rest ih => exact Nat.le_trans (s.asked_le_next t) (ih _)

/-! ### The invariant -/

/-- Settings, interest, watcher, current snapshot and gauge go together. -/
structure InStep (settings : Settings) (options : Options) (rules : List Rule) (s : Session) :
    Prop where
  given : s.reloader.settings = settings ∧ s.reloader.options = options ∧ s.reloader.rules = rules
  informed : ∃ res, s.journal.resolved.getLast? = some res ∧
    s.reloader.interest = s.reloader.interestIn res
  duty : s.reloader.OnDuty
  shown : ∃ x, s.reloader.trigger.current = some x ∧
    s.reloader.gauge = gaugeValue x.properties.size

namespace InStep

variable {h} {settings : Settings} {options : Options} {rules : List Rule} {s : Session}

/-- The watcher after a recomputation. -/
theorem watcher_next (hs : s.InStep settings options rules) (t : Turn) :
    (s.next h t).reloader.watcher =
      if (s.next h t).reloader.interest = s.reloader.interest then s.reloader.watcher.map t.drift
      else s.reloader.watcherFor (s.next h t).reloader.interest :=
  (hs.duty.drift t.drift).watcher_conclude (s.found h) (s.reloader.offer (s.found h) t.reply)

/-- A recomputation leaves everything in step. -/
theorem next (hs : s.InStep settings options rules) (t : Turn) :
    (s.next h t).InStep settings options rules := by
  refine ⟨?_, ?_, ?_, ?_⟩
  · obtain ⟨hsettings, hoptions, hrules⟩ := s.settings_next (h := h) t
    rw [hsettings, hoptions, hrules]
    exact hs.given
  · rw [interest_next, resolved_next]
    cases hfound : s.found h with
    | ok res =>
      refine ⟨res, ?_, (s.interestIn_next t res).symm⟩
      simp [Except.toOption]
    | error f =>
      obtain ⟨res, hlast, hinterest⟩ := hs.informed
      refine ⟨res, ?_, hinterest.trans (s.interestIn_next t res).symm⟩
      simpa [Except.toOption] using hlast
  · rw [reloader_next]
    exact (hs.duty.drift t.drift).conclude _ _
  · obtain ⟨x, hx, -⟩ := hs.shown
    have hsome : (s.reloader.offer (s.found h) t.reply).trigger.current.isSome = true :=
      Trigger.isSome_offer (t := s.reloader.trigger.begin) (Option.isSome_of_eq_some hx) _ _
    obtain ⟨y, hy⟩ := Option.isSome_iff_exists.mp hsome
    rw [trigger_next, reloader_next]
    exact ⟨y, hy, Reloader.gauge_conclude _ _ hy⟩

/-- Any number of recomputations do. -/
theorem after (hs : s.InStep settings options rules) (ts : List Turn) :
    (s.after h ts).InStep settings options rules := by
  induction ts generalizing s with
  | nil => exact hs
  | cons t rest ih => exact ih (hs.next t)

end InStep

/-! ### Stretches in which nothing new is answered -/

/-- The interest is that of what the rules resolve to on a cluster, if they do. -/
def Fits (c : Cluster (Except Failure)) (s : Session) : Prop :=
  ∀ res, resolve c s.reloader.options s.reloader.settings.space s.reloader.rules = .ok res →
    s.reloader.interest = s.reloader.interestIn res

section Stretch

variable {h} {settings : Settings} {options : Options} {rules : List Rule} {s : Session}
  {c : Cluster (Except Failure)}

/-- A recomputation that one cluster has answered leaves the interest that it calls for. -/
theorem fits_next (t : Turn)
    (hc : ∀ i, s.journal.asked ≤ i → i < (s.next h t).journal.asked → h i = c) :
    (s.next h t).Fits c := by
  obtain ⟨hsettings, hoptions, hrules⟩ := s.settings_next (h := h) t
  intro res hres
  rw [hsettings, hoptions, hrules] at hres
  rw [interest_next, s.found_eq t hc, hres, interestIn_next]

/-- Another one that the same cluster has answered changes nothing about it. -/
theorem interest_next_of_fits (hfits : s.Fits c) (t : Turn)
    (hc : ∀ i, s.journal.asked ≤ i → i < (s.next h t).journal.asked → h i = c) :
    (s.next h t).reloader.interest = s.reloader.interest := by
  rw [interest_next, s.found_eq t hc]
  split
  case h_1 res hres => exact (hfits res hres).symm
  case h_2 => rfl

/-- **Where the interest fits the answers, the watcher stays** for as long as these do. -/
theorem watcher_after (hs : s.InStep settings options rules) (hfits : s.Fits c) (ts : List Turn)
    (hc : ∀ i, s.journal.asked ≤ i → i < (s.after h ts).journal.asked → h i = c) :
    (s.after h ts).reloader.watcher =
      ts.foldl (fun w t => w.map t.drift) s.reloader.watcher := by
  induction ts generalizing s with
  | nil => rfl
  | cons t rest ih =>
    have hfirst : ∀ i, s.journal.asked ≤ i → i < (s.next h t).journal.asked → h i = c :=
      fun i hi hlt => hc i hi (Nat.lt_of_lt_of_le hlt (asked_le_after h _ rest))
    have hrest : ∀ i, (s.next h t).journal.asked ≤ i →
        i < ((s.next h t).after h rest).journal.asked → h i = c :=
      fun i hi hlt => hc i (Nat.le_trans (s.asked_le_next t) hi) hlt
    have hwatcher : (s.next h t).reloader.watcher = s.reloader.watcher.map t.drift := by
      rw [hs.watcher_next, if_pos (interest_next_of_fits hfits t hfirst)]
    rw [after_cons, ih (hs.next t) (fits_next t hfirst) hrest, List.foldl_cons, hwatcher]

end Stretch

/-! ### What can be relied on -/

/-- Something can become of a watcher that is not itself, so nothing both keeps and replaces it. -/
theorem not_keeps_of_replaces {s : Session} {reply : Reply}
    (hrunning : s.reloader.watcher.isSome = true) (hreplaces : s.Replaces h reply) :
    ¬ s.Keeps h reply := by
  intro hkeeps
  obtain ⟨w, hw⟩ := Option.isSome_iff_exists.mp hrunning
  have hany : ∀ f : Watcher → Watcher,
      (f w).interest = (s.next h ⟨id, reply⟩).reloader.interest := by
    intro f
    have hsame : some (f w) = some (.spawn (s.next h ⟨f, reply⟩).reloader.interest
        s.reloader.settings.backoff) := by
      rw [← hreplaces f, hkeeps f, hw, Option.map_some]
    have hinterest := congrArg Watcher.interest (Option.some.inj hsame)
    rw [hinterest, Watcher.spawn, interest_next, interest_next]
  -- the interest would be that of whatever the watcher has become, be it this or that
  have hboth : (∅ : Interest) = ⟨∅, [⟨⟨.configMap, ""⟩, ∅⟩]⟩ :=
    (hany fun w => { w with interest := ∅ }).trans
      (hany fun w => { w with interest := ⟨∅, [⟨⟨.configMap, ""⟩, ∅⟩]⟩ }).symm
  exact absurd hboth (by decide)

namespace InStep

variable {h} {settings : Settings} {options : Options} {rules : List Rule} {s : Session}

/-- A watcher that runs is replaced exactly if the interest is another one, and otherwise kept. -/
theorem replaces_iff (hs : s.InStep settings options rules) (t : Turn)
    (hrunning : s.reloader.watcher.isSome = true)
    (hinterest : (s.next h t).reloader.interest.isEmpty = false) :
    (s.Replaces h t.reply ↔ (s.next h t).reloader.interest ≠ s.reloader.interest) ∧
      (s.Keeps h t.reply ↔ (s.next h t).reloader.interest = s.reloader.interest) := by
  have hshould : s.reloader.shouldWatch (s.next h t).reloader.interest = true := by
    have hevent : s.reloader.shouldWatch s.reloader.interest = true := by rw [← hs.duty, hrunning]
    rw [Reloader.shouldWatch, Bool.and_eq_true] at hevent ⊢
    rw [hinterest]
    exact ⟨hevent.1, rfl⟩
  -- whatever becomes of the watcher, the interest is the same
  have hany : ∀ f, (s.next h ⟨f, t.reply⟩).reloader.interest = (s.next h t).reloader.interest :=
    fun f => by rw [interest_next, interest_next]
  have hkeeps : (s.next h t).reloader.interest = s.reloader.interest → s.Keeps h t.reply := by
    intro hsame f
    rw [hs.watcher_next, if_pos ((hany f).trans hsame)]
  have hreplaces : (s.next h t).reloader.interest ≠ s.reloader.interest →
      s.Replaces h t.reply := by
    intro hother f
    rw [hs.watcher_next, if_neg (fun hsame => hother ((hany f).symm.trans hsame)), hany,
      Reloader.watcherFor, if_pos hshould]
  refine ⟨⟨fun hr hsame => ?_, hreplaces⟩, ⟨fun hk => ?_, hkeeps⟩⟩
  · exact not_keeps_of_replaces h hrunning hr (hkeeps hsame)
  · exact Decidable.byContradiction fun hother =>
      not_keeps_of_replaces h hrunning (hreplaces hother) hk

/-- Without events there is no watcher, so that no task is there to have a turn. -/
theorem unsubscribed (hs : s.InStep settings options rules) (hmode : settings.mode ≠ .event)
    (d : Deployment) (hd : d.reloader = s.reloader) :
    d.settle = d ∧ ∀ n, d.pass n = { d with now := d.now + n } := by
  have hduty := hs.duty
  rw [Reloader.OnDuty, Reloader.shouldWatch, hs.given.1] at hduty
  have hnone : d.reloader.watcher = none := by
    rw [hd, ← Option.not_isSome_iff_eq_none, hduty]
    simp [hmode]
  constructor
  · simp only [Deployment.settle, hnone]
  · intro n
    simp only [Deployment.pass, hnone]

/-- **What is in step can be relied on.** -/
theorem coherent (hs : s.InStep settings options rules) :
    s.Coherent h settings options rules := by
  obtain ⟨hsettings, hoptions, hrules⟩ := hs.given
  refine ⟨?_, ?_, hs.unsubscribed, hs.shown, ?_, hs.replaces_iff, ?_⟩
  · obtain ⟨res, hlast, hinterest⟩ := hs.informed
    rw [Reloader.interestIn, hsettings, hoptions, hrules] at hinterest
    exact ⟨res, hlast, hinterest⟩
  · rw [hs.duty, Reloader.shouldWatch, hsettings]
    simp
  · intro t f hf
    have hoffer : s.reloader.offer (s.found h) t.reply =
        s.reloader.trigger.begin.offer (.error f) t.reply := by rw [Reloader.offer, hf]
    rw [trigger_next, handed_next, hoffer, Trigger.offer_error]
    exact ⟨rfl, List.append_nil _⟩
  · intro c t ts hc
    have hfits : (s.next h t).Fits c :=
      fits_next t fun i hi hlt => hc i hi (Nat.lt_of_lt_of_le hlt (asked_le_after h _ ts))
    exact watcher_after (hs.next t) hfits ts fun i hi hlt =>
      hc i (Nat.le_trans (s.asked_le_next t) hi) hlt

end InStep

/-! ### Starts -/

section Begin

variable {settings : Settings} {options : Options} {rules : List Rule} {reply : Reply}

/-- A start is that of a reloader, and what it hands out is noted. -/
theorem begin_cases (settings : Settings) (options : Options) (rules : List Rule) (reply : Reply) :
    (∃ f, (resolveFrom h options settings.space rules 0).1.bind Resolution.snapshot = .error f ∧
      (begin h settings options rules reply).1 = .error f ∧
      (begin h settings options rules reply).2.handed = []) ∨
    ∃ r o, Reloader.start settings options rules
        (resolveFrom h options settings.space rules 0).1 reply = .ok (r, o) ∧
      (begin h settings options rules reply).1 = .ok r := by
  cases hstart : Reloader.start settings options rules
      (resolveFrom h options settings.space rules 0).1 reply with
  | error f =>
    refine Or.inl ⟨f, Reloader.start_eq_error.mp hstart, ?_⟩
    simp only [begin, hstart]
    exact ⟨rfl, rfl⟩
  | ok p =>
    refine Or.inr ⟨p.1, p.2, rfl, ?_⟩
    simp only [begin, hstart]
    rfl

/-- A start that succeeds leaves everything in step. -/
theorem inStep_begin {r : Reloader} (hr : (begin h settings options rules reply).1 = .ok r) :
    InStep settings options rules ⟨r, (begin h settings options rules reply).2⟩ := by
  rcases begin_cases h settings options rules reply with ⟨f, -, hf, -⟩ | ⟨r', o, hstart, hr'⟩
  · rw [hf] at hr
    cases hr
  obtain rfl : r' = r := Except.ok.inj (hr'.symm.trans hr)
  obtain ⟨res, x, hfound, hx, ho, rfl⟩ := Reloader.start_eq_ok.mp hstart
  have hgiven := Reloader.settings_conclude (.idle settings options rules)
    (resolveFrom h options settings.space rules 0).1 o
  refine ⟨hgiven, ⟨res, ?_, ?_⟩, (Reloader.OnDuty.idle settings options rules).conclude _ _, ?_⟩
  · simp only [begin, hfound]
    rfl
  · rw [Reloader.interestIn_conclude, Reloader.interest_conclude, hfound]
  · have hcurrent : o.trigger.current.map Snapshot.properties = some x.properties := by
      rw [ho, Reloader.offer, hfound]
      have hbuilt : (Except.ok res : Except Failure Resolution).bind Resolution.snapshot =
          .ok x := hx
      rw [hbuilt]
      exact Trigger.properties_offer _ x reply
    obtain ⟨y, hy, -⟩ := Option.map_eq_some_iff.mp hcurrent
    rw [Reloader.trigger_conclude]
    exact ⟨y, hy, Reloader.gauge_conclude _ _ hy⟩

end Begin

/-- **A reloader keeps its word.** Let a cluster answer as it likes, every request anew. A start
fails exactly if the rules do not resolve or no snapshot comes of it, and then nothing was handed to
the application. After a start that does not fail, and after any recomputations, what can be relied
on is so. -/
theorem coherent_after_begin (settings : Settings) (options : Options) (rules : List Rule)
    (reply : Reply) :
    (∀ f, (begin h settings options rules reply).1 = .error f ↔
      (resolveFrom h options settings.space rules 0).1.bind Resolution.snapshot = .error f) ∧
    (∀ f, (begin h settings options rules reply).1 = .error f →
      (begin h settings options rules reply).2.handed = []) ∧
    ∀ r, (begin h settings options rules reply).1 = .ok r → ∀ turns,
      (after h ⟨r, (begin h settings options rules reply).2⟩ turns).Coherent h
        settings options rules := by
  refine ⟨?_, ?_, ?_⟩
  · intro f
    rcases begin_cases h settings options rules reply with ⟨f', hf', hb, -⟩ | ⟨r, o, hstart, hb⟩
    · rw [hb, hf']
      constructor <;> rintro ⟨⟩ <;> rfl
    · rw [hb, ← Reloader.start_eq_error, hstart]
      exact ⟨nofun, nofun⟩
  · intro f hf
    rcases begin_cases h settings options rules reply with ⟨f', -, -, hnone⟩ | ⟨r, o, -, hb⟩
    · exact hnone
    · rw [hb] at hf
      cases hf
  · intro r hr turns
    exact ((inStep_begin h hr).after turns).coherent

/-- A cluster with these answers to requests for an object, one after the other, and then none. -/
def scripted (answers : List (Option Object)) (n : Nat) : Cluster (Except Failure) where
  get _ := match answers[n]? with
    | some found => .ok found
    | none => .error (.cluster "gone")
  list _ _ := .ok []

/-- A rule for one config map. -/
def scriptedRules : List Rule := [⟨.configMap, .named "app", none, none, none⟩]

/-- The config map as it is found once. -/
def foundOnce : List (Option Object) :=
  [some ⟨⟨.configMap, "default", "app"⟩, ∅, .ofList [("a", "1")], "1"⟩]

/-- A start on a cluster that is gone, and one with a recomputation after which it is gone. -/
theorem coherent_after_begin_gone :
    (begin (scripted []) .standard .standard scriptedRules .accept).1 = .error (.cluster "gone") ∧
    (begin (scripted []) .standard .standard scriptedRules .accept).2.handed = [] ∧
    ∃ r, (begin (scripted foundOnce) .standard .standard scriptedRules .accept).1 = .ok r ∧
      (after (scripted foundOnce)
        ⟨r, (begin (scripted foundOnce) .standard .standard scriptedRules .accept).2⟩
        [⟨id, .accept⟩]).Coherent (scripted foundOnce) .standard .standard scriptedRules := by
  obtain ⟨-, hhanded, -⟩ :=
    coherent_after_begin (scripted []) .standard .standard scriptedRules .accept
  obtain ⟨-, -, hcoherent⟩ :=
    coherent_after_begin (scripted foundOnce) .standard .standard scriptedRules .accept
  have hgone : (begin (scripted []) .standard .standard scriptedRules .accept).1 =
      .error (.cluster "gone") := rfl
  obtain ⟨r, hr⟩ : ∃ r, (begin (scripted foundOnce) .standard .standard scriptedRules .accept).1 =
      .ok r := ⟨_, rfl⟩
  exact ⟨hgone, hhanded _ hgone, r, hr, hcoherent r hr _⟩

end Session

namespace Deployment

/-- While time passes a deployment has the same reloader, but for what becomes of its watcher. -/
theorem exists_drift_pass (d : Deployment) (n : Nat) :
    ∃ f, (d.pass n).reloader = d.reloader.drift f := by
  refine ⟨fun w => (w.pass d.now n d.store).watcher, ?_⟩
  cases hw : d.reloader.watcher <;> simp only [pass, Reloader.drift, hw, Option.map]
  exact congrArg (fun w => { d.reloader with watcher := w }) hw

/-- A deployment that recomputes takes a turn. -/
theorem exists_turn (d : Deployment) (j : Journal) :
    ∃ f, d.recompute.1.reloader =
      (Session.next (fun _ => d.store.cluster) ⟨d.reloader, j⟩ ⟨f, d.reply⟩).reloader := by
  have hfound : Session.found (fun _ => d.store.cluster) ⟨d.reloader, j⟩ = d.resolved :=
    Session.found_eq ⟨d.reloader, j⟩ ⟨id, d.reply⟩ fun _ _ _ => rfl
  obtain ⟨f, hf⟩ := exists_drift_pass d.beginRecompute.1 d.beginRecompute.2.2.waited
  refine ⟨f, ?_⟩
  rw [Session.reloader_next, hfound]
  exact congrArg (Reloader.conclude · d.resolved (d.reloader.offer d.resolved d.reply)) hf

end Deployment

end LiveConfig
