import LiveConfig.Proofs.Following
import Mathlib.Data.List.Chain
import Mathlib.Data.List.Induction

/-!
# What is forwarded of a history

A memory is told events one after the other and passes some of them on. What it holds of an object
can be read off what it passed on: the last change that was forwarded of the object, as long as the
event behind it was of concern (`Memory.Recalls`). So every event about an object that differs from
what was forwarded last is passed on, no change is passed on twice in a row, and of an object that
is no longer of concern one more event is passed on and then none.

Whether an event is of concern may depend on the labels that it shows. All of this rests on an
object showing the same labels whenever it shows the same version.

## Main definitions

* `LabelsByVersion` — an object shows the same labels whenever it shows the same version
* `Memory.after`, `Memory.verdicts`, `Memory.forwarded` — a memory that is told events
* `Memory.StillReported` — an object is known to be of concern
* `Follower.counted` — what is counted for events

## Main results

* `Memory.recalls_after` — what a memory holds after events
* `Memory.isChain_forwarded` — nothing is forwarded twice in a row
* `Memory.length_forwarded_le_one` — what is of no concern is forwarded once
* `Memory.forwards_news` — all of that, and which events are passed on
-/

namespace LiveConfig

namespace Tally

/-- What is counted of a series grows by the counters of this series. -/
theorem getD_addAll (t : Tally) (cs : List Counter) (s : String) :
    ((t.addAll cs).get? s).getD 0 = (t.get? s).getD 0 + cs.countP (·.series == s) := by
  induction cs generalizing t with
  | nil => rfl
  | cons c cs ih =>
    have hadd : ((t.add c 1).get? s).getD 0 =
        (t.get? s).getD 0 + if c.series = s then 1 else 0 := by
      rw [add, if_neg Nat.one_ne_zero, SortedMap.get?_insert_eq]
      by_cases h : s = c.series
      · subst h
        simp
      · rw [if_neg h, if_neg (Ne.symm h), Nat.add_zero]
    have hstep : t.addAll (c :: cs) = (t.add c 1).addAll cs := rfl
    rw [hstep, ih, hadd, List.countP_cons]
    simp only [beq_iff_eq]
    omega

end Tally

namespace Watch

/-- An object shows the same labels whenever it shows the same version. -/
def LabelsByVersion (es : List Event) : Prop :=
  ∀ o o', .applied o ∈ es → .applied o' ∈ es → o.key = o'.key → o.version = o'.version →
    o.labels = o'.labels

theorem LabelsByVersion.mono {es es' : List Event} (h : LabelsByVersion es') (hsub : es ⊆ es') :
    LabelsByVersion es := fun o o' ho ho' => h o o' (hsub ho) (hsub ho')

/-- Events that report the same change are all of concern or none of them is. -/
theorem LabelsByVersion.concerns_eq {es : List Event} (h : LabelsByVersion es) (i : Interest)
    {d e : Event} (hd : d ∈ es) (he : e ∈ es) (hsame : Change.ofEvent d = Change.ofEvent e) :
    concerns i d = concerns i e := by
  cases d with
  | applied o =>
    cases e with
    | applied o' =>
      obtain ⟨hkey, hversion⟩ := Change.mk.inj hsame
      have hlabels := h o o' hd he hkey (Option.some.inj hversion)
      simp only [concerns, hkey, hlabels]
    | deleted k => cases hsame
  | deleted k =>
    cases e with
    | applied o' => cases hsame
    | deleted k' =>
      obtain rfl := (Change.mk.inj hsame).1
      rfl

namespace Memory

/-! ### Verdicts -/

section Verdict

variable (i : Interest) (m : Memory) (e : Event)

theorem observe_eq_repeated_iff : (m.observe i e).1 = .repeated ↔
    concerns i e = true ∧ m.get? e.key = some (Change.ofEvent e).version := by
  simp only [observe, Change.key_ofEvent]
  cases concerns i e with
  | true =>
    by_cases hm : m.get? e.key = some (Change.ofEvent e).version <;> simp [hm]
  | false => cases m.contains e.key <;> simp

theorem observe_eq_unconcerned_iff : (m.observe i e).1 = .unconcerned ↔
    concerns i e = false ∧ m.get? e.key = none := by
  simp only [observe, Change.key_ofEvent]
  cases concerns i e with
  | true =>
    by_cases hm : m.get? e.key = some (Change.ofEvent e).version <;> simp [hm]
  | false => cases hm : m.get? e.key <;> simp [SortedMap.contains, hm]

/-- What is forwarded of an event is the change that it reports. -/
theorem change?_observe : (m.observe i e).1.change? =
    if m.get? e.key = judged i e then none else some (.ofEvent e) := by
  rcases observe_cases i m e with ⟨hv, hne⟩ | ⟨hv, -, heq⟩
  · rw [hv, if_neg hne]
    rfl
  · rw [if_pos heq]
    cases h : (m.observe i e).1 with
    | forward c => exact absurd h (hv c)
    | repeated => rfl
    | unconcerned => rfl

end Verdict

/-! ### Events in turn -/

/-- The memory after events in turn. -/
def after (i : Interest) (m : Memory) (es : List Event) : Memory :=
  es.foldl (fun m e => (m.observe i e).2) m

/-- What becomes of events in turn. -/
def verdicts (i : Interest) (m : Memory) : List Event → List Verdict
  | [] => []
  | e :: r => (m.observe i e).1 :: verdicts i (m.observe i e).2 r

/-- The changes that are passed on of events in turn. -/
def forwarded (i : Interest) (m : Memory) (es : List Event) : List Change :=
  (m.verdicts i es).filterMap Verdict.change?

variable {i : Interest} {m : Memory}

theorem after_concat (es : List Event) (e : Event) :
    m.after i (es ++ [e]) = ((m.after i es).observe i e).2 := by
  rw [after, List.foldl_append]
  rfl

theorem verdicts_append (es es' : List Event) :
    m.verdicts i (es ++ es') = m.verdicts i es ++ (m.after i es).verdicts i es' := by
  induction es generalizing m with
  | nil => rfl
  | cons e es ih => exact congrArg _ ih

theorem forwarded_cons (e : Event) (es : List Event) : m.forwarded i (e :: es) =
    (m.observe i e).1.change?.toList ++ (m.observe i e).2.forwarded i es := by
  rw [forwarded, verdicts, List.filterMap_cons]
  cases (m.observe i e).1.change? <;> rfl

theorem forwarded_concat (es : List Event) (e : Event) : m.forwarded i (es ++ [e]) =
    m.forwarded i es ++ ((m.after i es).observe i e).1.change?.toList := by
  rw [forwarded, verdicts_append, List.filterMap_append]
  refine congrArg _ ?_
  simp only [verdicts, List.filterMap_cons, List.filterMap_nil]
  cases ((m.after i es).observe i e).1.change? <;> rfl

/-! ### What a memory recalls -/

/-- What a memory holds of an object is the version in the last change that was forwarded of it. It
holds something if the event behind this change was of concern. -/
structure Recalls (i : Interest) (es : List Event) (m : Memory) (sent : List Change) : Prop where
  last : ∀ {k v}, m.get? k = some v → lastAbout Change.key k sent = some ⟨k, v⟩
  origin : ∀ {k c}, lastAbout Change.key k sent = some c →
    ∃ d ∈ es, Change.ofEvent d = c ∧ concerns i d = m.contains k

theorem contains_observe (k : ObjectKey) : (m.observe i e).2.contains k =
    if k = e.key then concerns i e else m.contains k := by
  rw [SortedMap.contains, get?_observe]
  split
  · rw [judged]
    cases concerns i e <;> rfl
  · rfl

/-- One more event is recalled. -/
theorem Recalls.observe {es : List Event} {sent : List Change} (h : Recalls i es m sent)
    (e : Event) :
    Recalls i (es ++ [e]) (m.observe i e).2 (sent ++ (m.observe i e).1.change?.toList) := by
  rw [change?_observe]
  by_cases hsame : m.get? e.key = judged i e
  · -- nothing is forwarded, and the memory stays as it is
    have hget : ∀ k, (m.observe i e).2.get? k = m.get? k := by
      intro k
      rw [get?_observe]
      split
      · next hk => rw [hk, hsame]
      · rfl
    rw [if_pos hsame, Option.toList_none, List.append_nil]
    constructor
    · intro k v hk
      exact h.last (hget k ▸ hk)
    · intro k c hc
      obtain ⟨d, hd, hdc, hconcerns⟩ := h.origin hc
      refine ⟨d, List.mem_append_left _ hd, hdc, ?_⟩
      rw [hconcerns, SortedMap.contains, SortedMap.contains, hget]
  · rw [if_neg hsame, Option.toList_some]
    constructor
    · intro k v hk
      rw [get?_observe] at hk
      rw [lastAbout_append, lastAbout_singleton, Change.key_ofEvent]
      split at hk
      · next hkey =>
        subst hkey
        rw [judged] at hk
        split at hk
        · cases hk
          rw [if_pos rfl, Option.some_or, ← Change.key_ofEvent]
        · cases hk
      · next hkey =>
        rw [if_neg (Ne.symm hkey), Option.none_or]
        exact h.last hk
    · intro k c hc
      rw [lastAbout_append, lastAbout_singleton, Change.key_ofEvent] at hc
      rw [contains_observe]
      split at hc
      · next hkey =>
        cases hc
        exact ⟨e, List.mem_append_right _ (List.mem_singleton_self e), rfl,
          (if_pos hkey.symm).symm⟩
      · next hkey =>
        obtain ⟨d, hd, hdc, hconcerns⟩ := h.origin hc
        exact ⟨d, List.mem_append_left _ hd, hdc, by rw [if_neg (Ne.symm hkey), hconcerns]⟩

/-- **What a memory holds after events**, in terms of what was forwarded of them. -/
theorem recalls_after (i : Interest) (es : List Event) :
    Recalls i es ((∅ : Memory).after i es) ((∅ : Memory).forwarded i es) := by
  induction es using List.reverseRecOn with
  | nil => exact ⟨nofun, nofun⟩
  | append_singleton es e ih =>
    rw [after_concat, forwarded_concat]
    exact ih.observe e

/-- An event that reports the change that was forwarded last is not passed on. -/
theorem Recalls.judged_eq {es : List Event} {sent : List Change} (h : Recalls i es m sent)
    {e : Event} (hlabels : LabelsByVersion (es ++ [e]))
    (hlast : lastAbout Change.key e.key sent = some (.ofEvent e)) :
    m.get? e.key = judged i e := by
  obtain ⟨d, hd, hde, hcontains⟩ := h.origin hlast
  have hconcerns : concerns i e = m.contains e.key := by
    rw [← hcontains]
    exact (hlabels.concerns_eq i (List.mem_append_left _ hd)
      (List.mem_append_right _ (List.mem_singleton_self e)) hde).symm
  rw [judged, hconcerns]
  cases hget : m.get? e.key with
  | none => simp [SortedMap.contains, hget]
  | some v =>
    have hsame : (⟨e.key, v⟩ : Change) = .ofEvent e :=
      Option.some.inj ((h.last hget).symm.trans hlast)
    simp [SortedMap.contains, hget, ← hsame]

/-! ### What is passed on -/

theorem getLast?_filter (k : ObjectKey) (cs : List Change) :
    (cs.filter (·.key == k)).getLast? = lastAbout Change.key k cs := by
  rw [List.getLast?_eq_head?_reverse, ← List.filter_reverse, List.head?_filter]
  rfl

/-- **Nothing is forwarded twice in a row** of an object. -/
theorem isChain_forwarded {es : List Event} (hlabels : LabelsByVersion es) (k : ObjectKey) :
    (((∅ : Memory).forwarded i es).filter (·.key == k)).IsChain (· ≠ ·) := by
  induction es using List.reverseRecOn with
  | nil => exact .nil
  | append_singleton es e ih =>
    have hchain := ih (hlabels.mono (List.subset_append_left es [e]))
    rw [forwarded_concat, change?_observe]
    split
    · simpa using hchain
    · next hnew =>
      rw [Option.toList_some, List.filter_append]
      by_cases hkey : e.key = k
      · subst hkey
        have hself : [Change.ofEvent e].filter (·.key == e.key) = [.ofEvent e] := by simp
        rw [hself]
        refine List.IsChain.append hchain (.singleton _) fun c hc c' hc' heq => ?_
        obtain rfl : .ofEvent e = c' := by simpa using hc'
        rw [getLast?_filter, heq] at hc
        exact hnew ((recalls_after i es).judged_eq hlabels hc)
      · simpa [hkey] using hchain

/-- Nothing is forwarded of an object that is of no concern and not known. -/
theorem forwarded_of_unknown {k : ObjectKey} {es : List Event} (hm : m.get? k = none)
    (hes : ∀ e ∈ es, e.key = k → concerns i e = false) :
    (m.forwarded i es).filter (·.key == k) = [] := by
  induction es generalizing m with
  | nil => rfl
  | cons e es ih =>
    obtain ⟨he, hes⟩ := List.forall_mem_cons.mp hes
    have hm' : (m.observe i e).2.get? k = none := by
      rw [get?_observe]
      split
      · next hk => rw [judged, he hk.symm, if_neg Bool.false_ne_true]
      · exact hm
    rw [forwarded_cons, List.filter_append, ih hm' hes, List.append_nil, change?_observe]
    split
    · rfl
    · next hnew =>
      have hkey : e.key ≠ k := by
        rintro rfl
        exact hnew (by rw [hm, judged, he rfl, if_neg Bool.false_ne_true])
      simp [hkey]

/-- **What is of no concern is forwarded once** at most, until it is of concern again. -/
theorem length_forwarded_le_one (m : Memory) {k : ObjectKey} {es : List Event}
    (hes : ∀ e ∈ es, e.key = k → concerns i e = false) :
    ((m.forwarded i es).filter (·.key == k)).length ≤ 1 := by
  induction es generalizing m with
  | nil => exact Nat.zero_le 1
  | cons e es ih =>
    obtain ⟨he, hes⟩ := List.forall_mem_cons.mp hes
    rw [forwarded_cons, List.filter_append]
    by_cases hkey : e.key = k
    · -- whatever becomes of this event, its object is not known behind it
      have hunknown : (m.observe i e).2.get? k = none := by
        rw [get?_observe, if_pos hkey.symm, judged, he hkey, if_neg Bool.false_ne_true]
      rw [forwarded_of_unknown hunknown hes, List.append_nil]
      refine Nat.le_trans (List.length_filter_le _ _) ?_
      exact Option.length_toList_le
    · have hnone : (m.observe i e).1.change?.toList.filter (·.key == k) = [] := by
        rw [change?_observe]
        split
        · rfl
        · simp [hkey]
      rw [hnone, List.nil_append]
      exact ih _ hes

/-! ### What is known to be of concern -/

/-- An event about an object was of concern and passed on, and none about it since was of no
concern. -/
def StillReported (i : Interest) (es : List Event) (k : ObjectKey) : Prop :=
  ∃ front d rear, es = front ++ d :: rear ∧ d.key = k ∧ concerns i d = true ∧
    (((∅ : Memory).after i front).observe i d).1 = .forward (.ofEvent d) ∧
    ∀ e ∈ rear, e.key = k → concerns i e = true

theorem contains_after {k : ObjectKey} {es : List Event} (hm : m.contains k = true)
    (hes : ∀ e ∈ es, e.key = k → concerns i e = true) : (m.after i es).contains k = true := by
  induction es generalizing m with
  | nil => exact hm
  | cons e es ih =>
    obtain ⟨he, hes⟩ := List.forall_mem_cons.mp hes
    refine ih ?_ hes
    rw [contains_observe]
    split
    · next hk => exact he hk.symm
    · exact hm

/-- An object is remembered if and only if it is still reported. -/
theorem contains_after_iff {es : List Event} {k : ObjectKey} :
    ((∅ : Memory).after i es).contains k = true ↔ StillReported i es k := by
  constructor
  · intro h
    induction es using List.reverseRecOn with
    | nil => cases h
    | append_singleton es e ih =>
      have hextend : (e.key = k → concerns i e = true) → StillReported i es k →
          StillReported i (es ++ [e]) k := by
        rintro he ⟨front, d, rear, rfl, hd, hconcerns, hsent, hrear⟩
        refine ⟨front, d, rear ++ [e], by simp, hd, hconcerns, hsent, fun x hx hxk => ?_⟩
        rcases List.mem_append.mp hx with hx | hx
        · exact hrear x hx hxk
        · obtain rfl := List.mem_singleton.mp hx
          exact he hxk
      rw [after_concat, contains_observe] at h
      split at h
      · next hk =>
        rcases observe_cases i ((∅ : Memory).after i es) e with ⟨hsent, -⟩ | ⟨-, -, hsame⟩
        · exact ⟨es, e, [], rfl, hk.symm, h, hsent, nofun⟩
        · refine hextend (fun _ => h) (ih ?_)
          rw [hk, SortedMap.contains, hsame, judged, if_pos h]
          rfl
      · next hk => exact hextend (fun he => absurd he.symm hk) (ih h)
  · rintro ⟨front, d, rear, rfl, rfl, hconcerns, -, hrear⟩
    have hsplit : (∅ : Memory).after i (front ++ d :: rear) =
        (((∅ : Memory).after i front).observe i d).2.after i rear := by
      rw [after, List.foldl_append]
      rfl
    rw [hsplit]
    refine contains_after ?_ hrear
    rw [contains_observe, if_pos rfl, hconcerns]

end Memory

/-! ### What is counted -/

namespace Follower

/-- What is counted for events in turn. -/
def counted (i : Interest) (f : Follower) : List Event → List Counter
  | [] => []
  | e :: r => (f.receive i e).2.receiveCounters (f.receive i e).1 ++ counted i (f.receive i e).2 r

/-- Only events that are of concern and not passed on are counted as suppressed. -/
theorem countP_counted (i : Interest) (f : Follower) (es : List Event) :
    (f.counted i es).countP (·.series == Counter.watchEventsSuppressed.series) =
      (es.zip (f.memory.verdicts i es)).countP fun p => concerns i p.1 && p.2.change?.isNone := by
  have hother : ∀ k : Kind, ((Counter.watchEvents k.text).series ==
      Counter.watchEventsSuppressed.series) = false := by
    intro k
    cases k <;> decide
  induction es generalizing f with
  | nil => rfl
  | cons e es ih =>
    have hfirst : (f.receive i e).1 = (f.memory.observe i e).1 := rfl
    have hrest : (f.receive i e).2.memory = (f.memory.observe i e).2 := rfl
    rw [counted, List.countP_append, ih, hfirst, hrest, Memory.verdicts, List.zip_cons_cons,
      List.countP_cons, Nat.add_comm]
    congr 1
    cases hv : (f.memory.observe i e).1 with
    | forward c => simp [receiveCounters, hother, Verdict.change?]
    | repeated =>
      have hconcerns := ((Memory.observe_eq_repeated_iff i f.memory e).mp hv).1
      simp [receiveCounters, hother, Verdict.change?, hconcerns]
    | unconcerned =>
      have hconcerns := ((Memory.observe_eq_unconcerned_iff i f.memory e).mp hv).1
      simp [receiveCounters, hother, Verdict.change?, hconcerns]

end Follower

/-! ### The whole -/

namespace Memory

/-- **Every news and no repetition.** A memory is told events of which those about an object at one
version show the same labels. An event is passed on with the change that it reports, with two
exceptions: it is of concern, and the last change that was forwarded of its object is the one that
it reports; or it is of no concern, and its object is not reported any more. No change of an object
is forwarded twice in a row; of a stretch of events in which an object is of no concern at most one
event about it is passed on; and the counter of suppressed events grows by the number of events
that are of concern and not passed on. -/
theorem forwards_news (i : Interest) {es : List Event} (hlabels : LabelsByVersion es) :
    (∀ front e rear, es = front ++ e :: rear →
      let v := (((∅ : Memory).after i front).observe i e).1
      (v = .forward (.ofEvent e) ∨ v = .repeated ∨ v = .unconcerned) ∧
      (v = .repeated ↔ concerns i e = true ∧
        lastAbout Change.key e.key ((∅ : Memory).forwarded i front) = some (.ofEvent e)) ∧
      (v = .unconcerned ↔ concerns i e = false ∧ ¬ StillReported i front e.key)) ∧
    (∀ k, (((∅ : Memory).forwarded i es).filter (·.key == k)).IsChain (· ≠ ·)) ∧
    (∀ k front stretch rear, es = front ++ stretch ++ rear →
      (∀ e ∈ stretch, e.key = k → concerns i e = false) →
      ((((∅ : Memory).after i front).forwarded i stretch).filter (·.key == k)).length ≤ 1) ∧
    ∀ (scope : Scope) (b : Backoff) (t : Tally),
      ((t.addAll ((Follower.new scope b).counted i es)).get?
          Counter.watchEventsSuppressed.series).getD 0 =
        (t.get? Counter.watchEventsSuppressed.series).getD 0 +
          (es.zip ((∅ : Memory).verdicts i es)).countP fun p =>
            concerns i p.1 && p.2.change?.isNone := by
  refine ⟨?_, isChain_forwarded hlabels, ?_, ?_⟩
  · rintro front e rear rfl
    have hrecalls := recalls_after i front
    have hfront : LabelsByVersion (front ++ [e]) := hlabels.mono (by simp)
    intro v
    refine ⟨?_, ?_, ?_⟩
    · rcases observe_cases i ((∅ : Memory).after i front) e with ⟨hv, -⟩ | ⟨hv, -, -⟩
      · exact Or.inl hv
      · refine Or.inr ?_
        cases h : v with
        | forward c => exact absurd h (hv c)
        | repeated => exact Or.inl rfl
        | unconcerned => exact Or.inr rfl
    · rw [observe_eq_repeated_iff]
      refine and_congr_right fun hconcerns => ⟨fun hget => ?_, fun hlast => ?_⟩
      · rw [hrecalls.last hget, ← Change.key_ofEvent]
      · rw [hrecalls.judged_eq hfront hlast, judged, if_pos hconcerns]
    · rw [observe_eq_unconcerned_iff, ← contains_after_iff, SortedMap.contains,
        Bool.not_eq_true, Option.isSome_eq_false_iff, Option.isNone_iff_eq_none]
  · intro k front stretch rear _ hstretch
    exact length_forwarded_le_one _ hstretch
  · intro scope b t
    rw [Tally.getD_addAll, Follower.countP_counted]
    rfl

/-- A secret that matters by a label, shows it twice, loses it, and is reported once more. -/
theorem forwards_news_relabelled :
    let i : Interest := ⟨∅, [⟨⟨.secret, "ns"⟩, .ofList [("letter", "c")]⟩]⟩
    let k : ObjectKey := ⟨.secret, "ns", "app"⟩
    let shown : Event := .applied ⟨k, .ofList [("letter", "c")], ∅, "1"⟩
    let lost : Event := .applied ⟨k, ∅, ∅, "2"⟩
    let gone : Event := .deleted k
    let es := [shown, shown, lost, gone]
    LabelsByVersion es ∧ (∅ : Memory).forwarded i es = [⟨k, some "1"⟩, ⟨k, some "2"⟩] ∧
      (((∅ : Memory).forwarded i es).filter (·.key == k)).IsChain (· ≠ ·) ∧
      lastAbout Change.key k ((∅ : Memory).forwarded i [shown]) = some (.ofEvent shown) ∧
      (((∅ : Memory).after i [shown]).observe i shown).1 = .repeated ∧
      ((((∅ : Memory).after i [shown, shown]).forwarded i [lost, gone]).filter
        (·.key == k)).length ≤ 1 ∧
      ¬ StillReported i [shown, shown, lost] k ∧
      (((Tally.addAll ∅ ((Follower.new k.scope (.new ⟨1⟩ ⟨1⟩)).counted i es)).get?
        Counter.watchEventsSuppressed.series).getD 0) = 1 := by
  intro i k shown lost gone es
  have hlabels : LabelsByVersion es := by
    intro o o' ho ho' _ hversion
    simp only [es, shown, lost, gone, List.mem_cons, List.not_mem_nil, Event.applied.injEq,
      reduceCtorEq, or_false, or_self_left] at ho ho'
    rcases ho with rfl | rfl <;> rcases ho' with rfl | rfl <;>
      first | rfl | exact absurd hversion (by decide)
  obtain ⟨hverdicts, hchain, hstretch, hcounted⟩ := forwards_news i hlabels
  have hsecond := hverdicts [shown] shown [lost, gone] rfl
  have hlast := hverdicts [shown, shown, lost] gone [] rfl
  refine ⟨hlabels, by decide, hchain k, by decide, hsecond.2.1.mpr ⟨by decide, by decide⟩,
    hstretch k [shown, shown] [lost, gone] [] rfl (by decide), ?_, ?_⟩
  · exact (hlast.2.2.mp (by decide)).2
  · exact (hcounted k.scope (.new ⟨1⟩ ⟨1⟩) ∅).trans (by decide)

end Memory

end Watch

end LiveConfig
