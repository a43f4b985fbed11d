import LiveConfig.Proofs.Invariant

/-!
# Convergence

When nothing is left to be done, the last resolution missed nothing that exists. It may have found
an object that is gone by now. The task of such an object has not been told of it, for if it had
been told that the object is gone, it would have forwarded that. Without deletions there is no such
object (`System.converges_of_undeleted`). With deletions, but as long as no stream breaks, it is one
that was deleted between the request that found it and the opening of the stream
(`System.converges_iff`).

## Main definitions

* `System.Undeleted`, `System.Calm` — moves that delete nothing, and moves that break no stream
* `System.Overlooks` — an object was found that no task has been told of

## Main results

* `System.converges_of_undeleted` — without deletions the reloader converges
* `System.converges_iff` — without broken streams it converges unless it overlooks a deletion
* `System.deletion_overlooked` — a deletion can be overlooked
-/

namespace LiveConfig

open Watch

namespace System

variable {s t : System} {m : Move} {settings : Settings} {options : Options} {rules : List Rule}

/-! ### Runs without deletions -/

/-- No object is deleted. -/
def Undeleted (_ : System) (m : Move) : Prop := ∀ k, m ≠ .store (.delete k)

/-- A store that answered, of which nothing is lost. -/
def AnswersKept (s : System) (x : Store) : Prop :=
  s.Answers x ∧ ∀ k, x.objects.contains k = true → s.store.objects.contains k = true

theorem answersKept_steps (hm : s.Undeleted m) (hs : Steps s m t) (htake : m ≠ .take) (x : Store)
    (h : s.AnswersKept x) : t.AnswersKept x := by
  refine ⟨h.1.steps htake hs, fun k hk => ?_⟩
  rcases store_steps hs with ⟨y, rfl, hy⟩ | ⟨-, hobjects, -⟩
  · rw [hy]
    exact Store.contains_perform (fun k' hk' => hm k' (hk' ▸ rfl)) (h.2 k hk)
  · rw [hobjects]
    exact h.2 k hk

/-- **No change is lost as long as nothing is deleted**, whatever happens to the streams. If nothing
is left to be done, and the rules can be resolved and built now, then the current properties are the
ones that are built from the store as it is now. -/
theorem converges_of_undeleted (settings : Settings) (options : Options) (rules : List Rule)
    (history : List Store.Step) (hmode : settings.mode = .event)
    (hmaps : settings.monitorConfigMaps = true) (hsecrets : settings.monitorSecrets = true)
    (s : System) (hs : Reached Undeleted (initial settings options rules history) s)
    (hq : s.Quiescent) (res : Resolution) (x : Snapshot)
    (hres : resolve s.store.cluster options settings.space rules = .ok res)
    (hx : res.snapshot = .ok x) :
    s.reloader.trigger.current.map Snapshot.properties = some x.properties := by
  have hinv := inv_of_reached hmode hs
  have hanswered : Answered s.AnswersKept s.reloader s.work :=
    answered_of_reached (Q := AnswersKept)
      (fun hs => ⟨(inv_of_reached hmode hs).answers, fun _ hk => hk⟩)
      (fun _ hm hsteps htake => answersKept_steps hm hsteps htake) hs
  obtain ⟨res₀, hist, hsettles⟩ :=
    hinv.settles hq hmaps hsecrets (fun _ h => h.1) hanswered hres
  have hkept : ∀ k, res₀.objects.contains k = true → s.store.objects.contains k = true := by
    intro k hk
    obtain ⟨n, hn⟩ := exists_contains_of_resolvedOver
      (fun n => (hsettles.answered n).1.sound.keyed) hsettles.resolved hk
    exact (hsettles.answered n).2 k hn
  have hres₀ := hsettles.resolve_eq hinv hq (fun _ h => h.1) hkept
  rw [hres] at hres₀
  cases hres₀
  exact hsettles.properties_eq hx

/-- Deletions are left out. -/
def undeleting (_ : System) : Move → Bool
  | .store (.delete _) => false
  | _ => true

theorem undeleted_of_undeleting (s : System) (m : Move) (h : undeleting s m = true) :
    s.Undeleted m := by
  rintro k rfl
  cases h

/-- A config map is changed after the start, and its stream is told to break before the change is
read. -/
def updating : List Move :=
  [.ask, .hand .accept, .conclude, .task 0 0, .task 0 0, .task 0 0, .store .disconnect,
    .store (samplePut "2"), .task 0 0, .task 0 1000, .task 0 1000, .task 0 1000, .task 0 1000,
    .task 0 1000, .take, .take, .begin, .hand .accept, .conclude]

/-- What this leads to. -/
def updated : System := (sample.run? undeleting updating).getD sample

theorem quiescent_updated : updated.Quiescent := by decide +kernel

theorem converges_updated :
    Reached Undeleted sample updated ∧ updated.Quiescent ∧
      updated.reloader.trigger.current.map Snapshot.properties = some (.ofList [("a", "2")]) := by
  have hs : Reached Undeleted sample updated :=
    reached_getD_run? undeleted_of_undeleting (by decide +kernel)
  exact ⟨hs, quiescent_updated, converges_of_undeleted .standard sampleOptions sampleRules
    [samplePut "1"] rfl rfl rfl updated hs quiescent_updated ⟨[⟨sampleKey, none⟩],
      .ofList [(sampleKey, ⟨sampleKey, ∅, .ofList [("a", "2")], "2"⟩)]⟩
    ⟨.ofList [("a", "2")], .ofList [(sampleKey, "2")]⟩ rfl rfl⟩

/-! ### Runs without transport failures -/

/-- Streams are not told to break, and none that is read is too far behind. -/
def Calm (s : System) (m : Move) : Prop :=
  m ≠ .store .disconnect ∧
    ∀ {n now w u sub}, m = .task n now → s.reloader.watcher = some w → w.tasks[n]? = some u →
      u.activity = .reading sub → (sub.unread s.store.feed).length ≤ feedLimit

/-- A task that has had no stream but the one that it has, and is not told to break that. -/
structure FollowedAnew (i : Interest) (s : Store) (t : Task) : Prop where
  follows : ∃ s₀, t.Follows i s₀ ∅ s
  memory_eq : t.stream? = none → t.follower.memory = ∅
  unread : ∀ {sub}, t.stream? = some sub → .disconnect ∉ sub.unread s.feed

/-- A task expects every object of interest that a store held. -/
def ExpectsAll (x : Store) (i : Interest) (s : Store) (t : Task) : Prop :=
  ∀ {k}, i.keys.contains k = true → x.objects.contains k = true → k.scope = t.follower.scope →
    t.Expects k s

theorem Calm.unbroken (h : s.Calm m) {n now : Nat} {w : Watcher} {u : Task}
    (hm : m = .task n now) (hw : s.reloader.watcher = some w) (hu : w.tasks[n]? = some u)
    (hf : FollowedAnew w.interest s.store u) (sub : Subscription)
    (ha : u.activity = .reading sub) (f : LinkFault) : (sub.next s.store.feed).1 ≠ .broken f := by
  intro hbroken
  have hsub : u.stream? = some sub := by rw [Task.stream?, ha]
  obtain ⟨s₀, hfollows⟩ := hf.follows
  have hbreaks := (hfollows sub hsub).live.breaks_of_next (t := (sub.next s.store.feed).2)
    (Prod.ext hbroken rfl) (fun e hr => by cases hr) (fun hr => by cases hr)
  rcases hbreaks with hlag | hdisconnect
  · exact absurd (h.2 hm hw hu ha) (Nat.not_le.mpr hlag)
  · exact hf.unread hsub hdisconnect

theorem keeps_followedAnew (hsound : s.store.Sound) (h : s.Calm m) :
    Keeps s m (fun _ _ => True) FollowedAnew where
  congr := by
    rintro i s₁ s₂ t hobjects hversion hfeed ⟨⟨s₀, hf⟩, hmem, hunread⟩
    refine ⟨⟨s₀, follows_congr hobjects hversion hfeed hf⟩, hmem, fun hsub => ?_⟩
    rw [hfeed]
    exact hunread hsub
  new i c b := ⟨⟨s.store, nofun⟩, fun _ => rfl, nofun⟩
  perform := by
    rintro x w t hm - - ⟨⟨s₀, hf⟩, hmem, hunread⟩
    refine ⟨⟨s₀, fun sub hsub => (hf sub hsub).perform x⟩, hmem, fun {sub} hsub hdisconnect => ?_⟩
    obtain ⟨l, hl, hnot⟩ := s.store.feed_perform x
    rw [hl, Subscription.unread_append (hf sub hsub).live.position_le] at hdisconnect
    rcases List.mem_append.mp hdisconnect with hdisconnect | hdisconnect
    · exact hunread hsub hdisconnect
    · exact hnot (fun hx => h.1 (hm.trans (congrArg _ hx))) hdisconnect
  does := by
    rintro n now w t t' s' sent hm hw hu hdoes - hanew
    obtain ⟨s₀, hf⟩ := hanew.follows
    have hopening : t.activity = .opening → t.follower.memory = ∅ := fun ha =>
      hanew.memory_eq (by rw [Task.stream?, ha])
    constructor
    · have hfollows := hdoes.follows hsound hf
      by_cases ha : t.activity = .opening
      · rw [if_pos ha, if_pos ha, hopening ha] at hfollows
        exact ⟨_, hfollows⟩
      · rw [if_neg ha, if_neg ha] at hfollows
        exact ⟨_, hfollows⟩
    · intro hnone
      obtain ⟨hnone', hsame⟩ := hdoes.stream?_eq_none hf (h.unbroken hm hw hu hanew) hnone
      rw [hsame]
      exact hanew.memory_eq hnone'
    · intro sub' hsub' hdisconnect
      rcases hdoes.unread_subset hf hsub' with hnil | ⟨sub, hsub, hsubset⟩
      · rw [hnil] at hdisconnect
        cases hdisconnect
      · exact hanew.unread hsub (hsubset hdisconnect)

/-- A task expects what exists. -/
theorem FollowedAnew.expectsAll {i : Interest} {x : Store} {u : Task}
    (h : FollowedAnew i x u) : ExpectsAll x i x u := by
  intro k _ hx hk hm
  cases hsub : u.stream? with
  | none => rw [h.memory_eq hsub] at hm; cases hm
  | some sub =>
    obtain ⟨s₀, hf⟩ := h.follows
    obtain ⟨o, hok, ho⟩ := (hf sub hsub).exists_ahead hk hx hm
    exact ⟨sub, o, rfl, hok, ho⟩

theorem keeps_expectsAll (h : s.Calm m) (hanew : s.AllTasks FollowedAnew) (x : Store) :
    Keeps s m (fun t t' => t'.follower.memory = t.follower.memory) (ExpectsAll x) where
  congr := by
    intro i s₁ s₂ t _ _ hfeed he k hi hx hk hm
    rw [hfeed]
    exact he hi hx hk hm
  new i c b := fun _ _ _ hm => nomatch hm
  perform := by
    intro y w t _ hw ht he k hi hx hk
    obtain ⟨s₀, hf⟩ := (hanew w hw t ht).follows
    exact (he hi hx hk).perform hf y
  does := by
    intro n now w t t' s' sent hm hw hu hdoes hsame he k hi hx hk
    have hanew := hanew w hw t (List.mem_of_getElem? hu)
    obtain ⟨s₀, hf⟩ := hanew.follows
    rw [hdoes.scope_eq] at hk
    exact hdoes.expects hf (h.unbroken hm hw hu hanew) hsame hi (he hi hx hk)

theorem followedAnew_of_reached (hmode : settings.mode = .event) {history : List Store.Step}
    (h : Reached Calm (initial settings options rules history) s) : s.AllTasks FollowedAnew := by
  induction h with
  | refl => exact nofun
  | move hs hm ht ih =>
    exact ih.steps (keeps_followedAnew (inv_of_reached hmode hs).sound hm) (steps_of_step ht)

/-- A store that answered, whose objects are expected unless changes are on their way. -/
def AnswersExpected (s : System) (x : Store) : Prop := s.Answers x ∧ s.Settled (ExpectsAll x)

/-- The last resolution found an object that no task has been told of. -/
def Overlooks (s : System) (k : ObjectKey) : Prop :=
  ∃ res, s.work = .pausing (.ok res) ∧ res.objects.contains k = true ∧
    ∀ w u, s.reloader.watcher = some w → u ∈ w.tasks → u.follower.scope = k.scope →
      u.follower.memory.get? k = none

/-- What was found and is gone, no task has been told of: a task that had been told that it is gone
would expect it. -/
theorem untold_of_gone (hanew : s.AllTasks FollowedAnew) (hq : s.Quiescent) {x : Store}
    (hx : s.Settled (ExpectsAll x)) {k : ObjectKey} (hfound : x.objects.contains k = true)
    (hi : s.reloader.interest.keys.contains k = true) (hgone : s.store.objects.get? k = none)
    {w : Watcher} {u : Task} (hw : s.reloader.watcher = some w)
    (hinterest : w.interest = s.reloader.interest) (hu : u ∈ w.tasks)
    (hscope : u.follower.scope = k.scope) : u.follower.memory.get? k = none := by
  rw [← hinterest] at hi
  have hanew := hanew w hw u hu
  obtain ⟨s₀, hf⟩ := hanew.follows
  obtain ⟨sub, hsub, hf, hahead⟩ := ahead_eq_nil_of_idle hf ((hq.2 w hw).2 u hu)
  cases he : lastAbout Event.key k (heard s₀ s.store u.follower.scope) with
  | none => exact hf.memory_of_unheard hahead he
  | some e =>
    have hshows := hf.shows hscope.symm
    rw [hgone, he] at hshows
    obtain rfl : e.key = k := (lastAbout_eq_some he).2
    cases e with
    | applied o => cases hshows
    | deleted k' =>
      have hmem := hf.memory_of_heard hahead he
      rw [judged_of_key hi] at hmem
      have hsettled := (hx w hw).resolve_left (not_ahead_of_quiescent hq hw)
      obtain ⟨sub', o, hsub', -, ho⟩ := hsettled u hu hi hfound hscope.symm hmem
      cases hsub.symm.trans hsub'
      rw [hahead] at ho
      cases ho

theorem answersExpected_of_reached (hmode : settings.mode = .event) {history : List Store.Step}
    (h : Reached Calm (initial settings options rules history) s) :
    Answered s.AnswersExpected s.reloader s.work := by
  refine answered_of_reached (Q := AnswersExpected) (fun hs => ⟨(inv_of_reached hmode hs).answers,
    fun w hw => Or.inr fun u hu => ?_⟩) (fun hs hm hsteps htake y hy => ?_) h
  · exact (followedAnew_of_reached hmode hs w hw u hu).expectsAll
  · exact ⟨hy.1.steps htake hsteps,
      hy.2.steps (keeps_expectsAll hm (followedAnew_of_reached hmode hs) y) htake hsteps⟩

variable {res res₀ : Resolution} {hist : Nat → Store}

/-- What the last resolution found is of interest. -/
theorem Settles.contains_interest {Q : Store → Prop}
    (hs : s.Settles Q settings options rules res₀ hist) {k : ObjectKey}
    (hk : res₀.objects.contains k = true) : s.reloader.interest.keys.contains k = true := by
  rw [hs.interest_eq]
  exact Interest.contains_ofRules options settings.space rules hk

/-- Overlooked are the objects that the last resolution found and that are gone. -/
theorem Settles.overlooks_iff (hs : s.Settles s.AnswersExpected settings options rules res₀ hist)
    (h : s.Inv settings options rules) (hanew : s.AllTasks FollowedAnew) (hq : s.Quiescent)
    (k : ObjectKey) : s.Overlooks k ↔
      res₀.objects.contains k = true ∧ s.store.objects.get? k = none := by
  constructor
  · rintro ⟨res', hwork, hk, huntold⟩
    cases hs.work_eq.symm.trans hwork
    refine ⟨hk, Option.eq_none_iff_forall_ne_some.mpr fun y hy => ?_⟩
    obtain ⟨w, u, hw, hu, hscope, hmem⟩ :=
      h.memory_of_exists hq hy (Interest.covers_of_key (hs.contains_interest hk) _)
    exact absurd (hmem.symm.trans (huntold w u hw hu hscope)) (Option.some_ne_none _)
  · rintro ⟨hk, hgone⟩
    obtain ⟨n, hn⟩ := exists_contains_of_resolvedOver
      (fun n => (hs.answered n).1.sound.keyed) hs.resolved hk
    refine ⟨res₀, hs.work_eq, hk, fun w u hw hu hscope => ?_⟩
    have hwatches := h.watches
    rw [Reloader.Watches, hw] at hwatches
    exact untold_of_gone hanew hq (hs.answered n).2 hn (hs.contains_interest hk) hgone hw
      hwatches.1 hu hscope

/-- The rules resolve to what they resolved to last if and only if nothing is overlooked. -/
theorem Settles.eq_iff (hs : s.Settles s.AnswersExpected settings options rules res₀ hist)
    (h : s.Inv settings options rules) (hanew : s.AllTasks FollowedAnew) (hq : s.Quiescent)
    (hres : resolve s.store.cluster options settings.space rules = .ok res) :
    res₀ = res ↔ ∀ k, ¬ s.Overlooks k := by
  constructor
  · rintro rfl k hk
    obtain ⟨hfound, hgone⟩ := (hs.overlooks_iff h hanew hq k).mp hk
    obtain ⟨-, hn⟩ := exists_contains_of_resolvedOver (fun _ => h.sound.keyed)
      ((resolvedOver_const ..).trans hres) hfound
    rw [SortedMap.contains, hgone] at hn
    cases hn
  · intro hnone
    have hkept : ∀ k, res₀.objects.contains k = true → s.store.objects.contains k = true := by
      intro k hk
      cases hget : s.store.objects.get? k with
      | none => exact absurd ((hs.overlooks_iff h hanew hq k).mpr ⟨hk, hget⟩) (hnone k)
      | some y => exact SortedMap.contains_iff.mpr ⟨y, hget⟩
    have hres₀ := hs.resolve_eq h hq (fun _ h => h.1) hkept
    exact Except.ok.inj (hres₀.symm.trans hres)

/-- **Deletions are lost exactly if they are overlooked.** As long as no stream breaks, if nothing
is left to be done, and the rules can be resolved and built now, then the last resolution succeeded,
and the current properties are built from it if it could be built. It is what the rules resolve to
now if and only if nothing is overlooked, and overlooked are the objects that it found and that are
gone. In particular, if nothing is overlooked, then the current properties are the ones that are
built from the store as it is now. -/
theorem converges_iff (settings : Settings) (options : Options) (rules : List Rule)
    (history : List Store.Step) (hmode : settings.mode = .event)
    (hmaps : settings.monitorConfigMaps = true) (hsecrets : settings.monitorSecrets = true)
    (s : System) (hs : Reached Calm (initial settings options rules history) s)
    (hq : s.Quiescent) (res : Resolution) (x : Snapshot)
    (hres : resolve s.store.cluster options settings.space rules = .ok res)
    (hx : res.snapshot = .ok x) :
    ∃ res₀, s.work = .pausing (.ok res₀) ∧
      (∀ x₀, res₀.snapshot = .ok x₀ →
        s.reloader.trigger.current.map Snapshot.properties = some x₀.properties) ∧
      (∀ k, s.Overlooks k ↔
        res₀.objects.contains k = true ∧ s.store.objects.get? k = none) ∧
      (res₀ = res ↔ ∀ k, ¬ s.Overlooks k) ∧
      ((∀ k, ¬ s.Overlooks k) →
        s.reloader.trigger.current.map Snapshot.properties = some x.properties) := by
  have hinv := inv_of_reached hmode hs
  have hanew := followedAnew_of_reached hmode hs
  have hanswered := answersExpected_of_reached hmode hs
  obtain ⟨res₀, hist, hsettles⟩ :=
    hinv.settles hq hmaps hsecrets (fun _ h => h.1) hanswered hres
  have hiff := hsettles.eq_iff hinv hanew hq hres
  refine ⟨res₀, hsettles.work_eq, fun x₀ hx₀ => hsettles.properties_eq hx₀,
    hsettles.overlooks_iff hinv hanew hq, hiff, fun hnone => ?_⟩
  cases hiff.mpr hnone
  exact hsettles.properties_eq hx

/-- Streams are not told to break, and the feed is not long enough for any to be too far behind. -/
def calming (s : System) : Move → Bool
  | .store .disconnect => false
  | _ => decide (s.store.feed.length ≤ feedLimit)

theorem calm_of_calming (s : System) (m : Move) (h : calming s m = true) : s.Calm m := by
  constructor
  · rintro rfl
    cases h
  · rintro n now w u sub rfl - - -
    have hfeed : s.store.feed.length ≤ feedLimit := of_decide_eq_true h
    rw [Subscription.unread, List.length_drop]
    omega

/-- A config map is deleted after the start, while there is a stream. -/
def deleting : List Move :=
  [.ask, .hand .accept, .conclude, .task 0 0, .store (.delete sampleKey), .task 0 0, .task 0 0,
    .task 0 0, .task 0 0, .task 0 0, .take, .take, .begin, .hand .accept, .conclude]

/-- What this leads to. -/
def deleted : System := (sample.run? calming deleting).getD sample

theorem quiescent_deleted : deleted.Quiescent := by decide +kernel

theorem converges_deleted :
    Reached Calm sample deleted ∧ deleted.Quiescent ∧
      deleted.reloader.trigger.current.map Snapshot.properties = some ∅ := by
  have hs : Reached Calm sample deleted :=
    reached_getD_run? calm_of_calming (by decide +kernel)
  obtain ⟨res₀, hwork, -, hoverlooks, -, hconverges⟩ := converges_iff .standard sampleOptions
    sampleRules [samplePut "1"] rfl rfl rfl deleted hs quiescent_deleted ⟨[], ∅⟩ ∅ rfl rfl
  have hwork' : deleted.work = .pausing (.ok ⟨[], ∅⟩) := rfl
  cases hwork'.symm.trans hwork
  exact ⟨hs, quiescent_deleted, hconverges fun k hk => nomatch ((hoverlooks k).mp hk).1⟩

/-- A config map is deleted after the rules were resolved and before the watch task has a stream. -/
def overlooking : List Move :=
  [.ask, .hand .accept, .store (.delete sampleKey), .conclude, .task 0 0, .task 0 0]

/-- What this leads to. -/
def overlooked : System := (sample.run? calming overlooking).getD sample

theorem quiescent_overlooked : overlooked.Quiescent := by decide +kernel

/-- The application keeps its properties, although nothing is left to be done and the rules no
longer resolve to them. -/
theorem deletion_overlooked :
    ∃ res x, Reached Calm sample overlooked ∧ overlooked.Quiescent ∧
      resolve overlooked.store.cluster sampleOptions Settings.standard.space sampleRules = .ok res ∧
      res.snapshot = .ok x ∧ x.properties = ∅ ∧
      overlooked.reloader.trigger.current.map Snapshot.properties = some (.ofList [("a", "1")]) :=
  ⟨⟨[], ∅⟩, ∅, reached_getD_run? calm_of_calming (by decide +kernel), quiescent_overlooked, rfl,
    rfl, rfl, rfl⟩

end System

end LiveConfig
