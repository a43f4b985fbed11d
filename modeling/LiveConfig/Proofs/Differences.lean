import LiveConfig.Proofs.SortedMap
import LiveConfig.Proofs.TriggerRuns
import Mathlib.Data.List.Sort

/-!
# Differences between snapshots

The keys in which two snapshots differ are found in two passes, one over either map. Together they
tell of every key once in which way it differs (`Changes.Exact`), and there is only one way to do
so. Whatever else is said of changes follows from this and not from the passes: that there are none
if and only if the properties are the same, that they are turned around on the way back, and that
they lead from one snapshot to the other.

A trigger asks whether the properties are the same, not whether there are changes. As both come to
the same, the application is never handed a snapshot without a change, its first one apart.

## Main definitions

* `Changes.Exact` — changes tell of every key in which way it differs
* `Changes.applied` — properties after changes
* `Trigger.carried` — the changes that come with the outcomes of a run

## Main results

* `Snapshot.exact_changes` — the changes that are found are exact
* `Changes.Exact.unique`, `Changes.Exact.turned` — exact changes are unique, and exact on the way
  back if they are turned around
* `Snapshot.changes_lead` — all of this together, and what follows for a trigger
-/

namespace LiveConfig

/-- The order in which keys are reported. -/
abbrev Before (k l : String) : Prop := compare k l = .lt

instance : Std.Irrefl Before := ⟨fun k h => by
  have hself : compare k k = .eq := Std.ReflCmp.compare_self
  rw [Before, hself] at h
  cases h⟩

instance : Std.Antisymm Before := ⟨fun k l h h' => by
  rw [Before, Std.OrientedCmp.gt_of_lt h] at h'
  cases h'⟩

namespace SortedMap

variable {β : Type} (m : SortedMap String β)

theorem ascending_keys : m.keys.Pairwise Before := List.pairwise_map.mpr m.ascending

theorem not_contains_iff (k : String) : (!m.contains k) = true ↔ m.get? k = none := by
  rw [contains, Bool.not_eq_true', Option.isSome_eq_false_iff, Option.isNone_iff_eq_none]

end SortedMap

namespace Changes

/-- Changes tell of every key in which way it differs between two snapshots, in order and once. -/
structure Exact (c : Changes) (s t : Snapshot) : Prop where
  /-- Keys are reported in ascending order. -/
  ascending : c.added.Pairwise Before ∧ c.removed.Pairwise Before ∧ c.changed.Pairwise Before
  /-- No key is reported in two ways. -/
  apart : c.added.Disjoint c.removed ∧ c.added.Disjoint c.changed ∧ c.removed.Disjoint c.changed
  /-- The keys that only the second snapshot has are added. -/
  mem_added : ∀ k, k ∈ c.added ↔
    s.properties.get? k = none ∧ ∃ v, t.properties.get? k = some v
  /-- The keys that only the first snapshot has are removed. -/
  mem_removed : ∀ k, k ∈ c.removed ↔
    (∃ v, s.properties.get? k = some v) ∧ t.properties.get? k = none
  /-- The keys with different values are changed. -/
  mem_changed : ∀ k, k ∈ c.changed ↔
    ∃ v w, s.properties.get? k = some v ∧ t.properties.get? k = some w ∧ v ≠ w

/-- Changes the other way round. -/
def turned (c : Changes) : Changes := ⟨c.removed, c.added, c.changed⟩

/-- Properties after changes: removed keys are dropped, and what was added or changed is taken from
other properties. -/
def applied (c : Changes) (old new : SortedMap String String) : SortedMap String String :=
  (old.filter fun k _ => k ∉ c.removed).override (new.filter fun k _ => k ∈ c.added ++ c.changed)

theorem isEmpty_iff {c : Changes} :
    c.isEmpty = true ↔ c.added = [] ∧ c.removed = [] ∧ c.changed = [] := by
  simp [isEmpty, and_assoc]

theorem applied_of_isEmpty {c : Changes} (h : c.isEmpty = true)
    (old new : SortedMap String String) : c.applied old new = old := by
  obtain ⟨hadded, hremoved, hchanged⟩ := isEmpty_iff.mp h
  refine SortedMap.ext_get? fun k => ?_
  rw [applied, SortedMap.get?_override, SortedMap.get?_filter, SortedMap.get?_filter, hadded,
    hremoved, hchanged]
  cases old.get? k <;> simp

namespace Exact

variable {c c' : Changes} {s t : Snapshot}

/-- There is one way only to tell how snapshots differ. -/
theorem unique (h : c.Exact s t) (h' : c'.Exact s t) : c = c' := by
  have hadded : c.added = c'.added := h.ascending.1.eq_of_mem_iff h'.ascending.1 fun k =>
    (h.mem_added k).trans (h'.mem_added k).symm
  have hremoved : c.removed = c'.removed := h.ascending.2.1.eq_of_mem_iff h'.ascending.2.1 fun k =>
    (h.mem_removed k).trans (h'.mem_removed k).symm
  have hchanged : c.changed = c'.changed := h.ascending.2.2.eq_of_mem_iff h'.ascending.2.2 fun k =>
    (h.mem_changed k).trans (h'.mem_changed k).symm
  cases c
  cases c'
  simp_all

/-- On the way back keys are added that were removed, and the other way round. -/
theorem turned (h : c.Exact s t) : c.turned.Exact t s where
  ascending := ⟨h.ascending.2.1, h.ascending.1, h.ascending.2.2⟩
  apart := ⟨List.disjoint_comm.mp h.apart.1, h.apart.2.2, h.apart.2.1⟩
  mem_added k := (h.mem_removed k).trans and_comm
  mem_removed k := (h.mem_added k).trans and_comm
  mem_changed k := by
    refine (h.mem_changed k).trans ⟨?_, ?_⟩
    · rintro ⟨v, w, hv, hw, hne⟩
      exact ⟨w, v, hw, hv, hne.symm⟩
    · rintro ⟨v, w, hv, hw, hne⟩
      exact ⟨w, v, hw, hv, hne.symm⟩

/-- Changes lead from one snapshot to the other. -/
theorem applied_eq (h : c.Exact s t) : c.applied s.properties t.properties = t.properties := by
  refine SortedMap.ext_get? fun k => ?_
  rw [applied, SortedMap.get?_override, SortedMap.get?_filter, SortedMap.get?_filter]
  cases hs : s.properties.get? k with
  | none =>
    cases ht : t.properties.get? k with
    | none => rfl
    | some w =>
      have hk : k ∈ c.added := (h.mem_added k).mpr ⟨hs, w, ht⟩
      simp [hk]
  | some v =>
    cases ht : t.properties.get? k with
    | none =>
      have hk : k ∈ c.removed := (h.mem_removed k).mpr ⟨⟨v, hs⟩, ht⟩
      simp [hk]
    | some w =>
      have hremains : k ∉ c.removed := by simp [h.mem_removed, ht]
      by_cases hvw : v = w
      · subst hvw
        cases decide (k ∈ c.added ++ c.changed) <;> simp [hremains]
      · have hk : k ∈ c.changed := (h.mem_changed k).mpr ⟨v, w, hs, ht, hvw⟩
        simp [hk]

/-- There are no changes if and only if the properties are the same. -/
theorem isEmpty_iff (h : c.Exact s t) : c.isEmpty = true ↔ s.properties = t.properties := by
  constructor
  · intro hempty
    rw [← h.applied_eq, applied_of_isEmpty hempty]
  · intro heq
    refine Changes.isEmpty_iff.mpr ⟨List.eq_nil_iff_forall_not_mem.mpr fun k hk => ?_,
      List.eq_nil_iff_forall_not_mem.mpr fun k hk => ?_,
      List.eq_nil_iff_forall_not_mem.mpr fun k hk => ?_⟩
    · obtain ⟨hnone, v, hv⟩ := (h.mem_added k).mp hk
      rw [heq, hv] at hnone
      cases hnone
    · obtain ⟨⟨v, hv⟩, hnone⟩ := (h.mem_removed k).mp hk
      rw [heq, hnone] at hv
      cases hv
    · obtain ⟨v, w, hv, hw, hne⟩ := (h.mem_changed k).mp hk
      rw [heq, hw] at hv
      exact hne (Option.some.inj hv).symm

end Exact

end Changes

namespace Snapshot

variable (s t : Snapshot) (k : String)

theorem mem_added_iff : k ∈ (s.changes t).added ↔
    s.properties.get? k = none ∧ ∃ v, t.properties.get? k = some v := by
  rw [changes, List.mem_filter, SortedMap.not_contains_iff, SortedMap.mem_keys,
    SortedMap.contains_iff, and_comm]

theorem mem_removed_iff : k ∈ (s.changes t).removed ↔
    (∃ v, s.properties.get? k = some v) ∧ t.properties.get? k = none := by
  rw [changes, List.mem_filter, SortedMap.not_contains_iff, SortedMap.mem_keys,
    SortedMap.contains_iff]

theorem mem_changed_iff : k ∈ (s.changes t).changed ↔
    ∃ v w, s.properties.get? k = some v ∧ t.properties.get? k = some w ∧ v ≠ w := by
  rw [changes, List.mem_map]
  constructor
  · rintro ⟨⟨k, w⟩, he, rfl⟩
    obtain ⟨he, hdiffers⟩ := List.mem_filter.mp he
    cases hv : s.properties.get? k with
    | none => simp [hv] at hdiffers
    | some v =>
      refine ⟨v, w, rfl, SortedMap.get?_eq_some_iff.mpr he, ?_⟩
      simpa [hv] using hdiffers
  · rintro ⟨v, w, hv, hw, hne⟩
    refine ⟨(k, w), List.mem_filter.mpr ⟨SortedMap.get?_eq_some_iff.mp hw, ?_⟩, rfl⟩
    simpa [hv] using hne

/-- The two passes find exactly the keys in which two snapshots differ. -/
theorem exact_changes : (s.changes t).Exact s t := by
  refine ⟨⟨t.properties.ascending_keys.filter _, s.properties.ascending_keys.filter _,
    List.pairwise_map.mpr (t.properties.ascending.filter _)⟩, ⟨?_, ?_, ?_⟩, s.mem_added_iff t,
    s.mem_removed_iff t, s.mem_changed_iff t⟩
  · intro k hk hk'
    obtain ⟨hnone, -⟩ := (s.mem_added_iff t k).mp hk
    obtain ⟨⟨v, hv⟩, -⟩ := (s.mem_removed_iff t k).mp hk'
    rw [hnone] at hv
    cases hv
  · intro k hk hk'
    obtain ⟨hnone, -⟩ := (s.mem_added_iff t k).mp hk
    obtain ⟨v, w, hv, -, -⟩ := (s.mem_changed_iff t k).mp hk'
    rw [hnone] at hv
    cases hv
  · intro k hk hk'
    obtain ⟨-, hnone⟩ := (s.mem_removed_iff t k).mp hk
    obtain ⟨v, w, -, hw, -⟩ := (s.mem_changed_iff t k).mp hk'
    rw [hnone] at hw
    cases hw

end Snapshot

/-! ### What a trigger reports -/

/-- The changes that come with an outcome, if the application was handed a snapshot. -/
def Outcome.changes? : Outcome → Option Changes
  | .applied c => some c
  | .refreshFailed c _ => some c
  | _ => none

namespace Trigger

/-- The changes that come with the outcomes of a run, in order. -/
def carried (t : Trigger) (xs : List Input) : List Changes :=
  (t.offers xs).filterMap fun o => o.outcome.changes?

theorem changes?_hand (t : Trigger) (s : Snapshot) (r : Reply) :
    (t.hand s r).outcome.changes? = some (t.previous.changes s) := by
  cases hin : r.inTime t.limit with
  | false => rw [(hand_of_late hin).1]; rfl
  | true =>
    rw [hand_of_inTime hin]
    cases r.result <;> rfl

/-- What an offer carries, and what is current after it. -/
theorem offer_cases (t : Trigger) (built : Except Failure Snapshot) (reply : Reply) :
    (t.offer built reply).outcome.changes? = none ∧
        (t.offer built reply).trigger.current = t.current ∨
      ∃ s, t.current.map Snapshot.properties ≠ some s.properties ∧
        (t.offer built reply).outcome.changes? = some (t.previous.changes s) ∧
        (t.offer built reply).trigger.current = some s := by
  cases built with
  | error f => exact Or.inl ⟨rfl, rfl⟩
  | ok s =>
    by_cases h : t.current.map Snapshot.properties = some s.properties
    · rw [offer_of_alike reply h]
      exact Or.inl ⟨rfl, rfl⟩
    · rw [offer_of_new reply h]
      exact Or.inr ⟨s, h, changes?_hand t s reply, rfl⟩

theorem carried_offer (t : Trigger) (built : Except Failure Snapshot) (reply : Reply)
    (xs : List Input) : t.carried (.offer built reply :: xs) =
      (t.offer built reply).outcome.changes?.toList ++
        (t.offer built reply).trigger.carried xs := by
  cases h : (t.offer built reply).outcome.changes? <;> simp [carried, offers, h]

/-- A trigger with a snapshot hands over only snapshots that differ from it. -/
theorem carried_of_current {t : Trigger} {s : Snapshot} (h : t.current = some s)
    (xs : List Input) : ∀ c ∈ t.carried xs, c.isEmpty = false := by
  induction xs generalizing t s with
  | nil => exact List.forall_mem_nil _
  | cons x xs ih =>
    cases x with
    | begin => exact ih h
    | offer built reply =>
      rw [carried_offer]
      rcases t.offer_cases built reply with ⟨hnone, hcurrent⟩ | ⟨s', hnew, hsome, hcurrent⟩
      · rw [hnone]
        exact ih (hcurrent.trans h)
      · rw [hsome]
        refine List.forall_mem_cons.mpr ⟨?_, ih hcurrent⟩
        rw [previous, h, Option.getD_some, Bool.eq_false_iff, ne_eq,
          (s.exact_changes s').isEmpty_iff]
        rw [h] at hnew
        exact fun heq => hnew (congrArg some heq)

/-- Only the first snapshot that the application is handed may come without a change. -/
theorem carried_tail {t : Trigger} (h : t.current = none) (xs : List Input) :
    ∀ c ∈ (t.carried xs).tail, c.isEmpty = false := by
  induction xs generalizing t with
  | nil => exact List.forall_mem_nil _
  | cons x xs ih =>
    cases x with
    | begin => exact ih h
    | offer built reply =>
      rw [carried_offer]
      rcases t.offer_cases built reply with ⟨hnone, hcurrent⟩ | ⟨s, -, hsome, hcurrent⟩
      · rw [hnone]
        exact ih (hcurrent.trans h)
      · rw [hsome]
        exact carried_of_current hcurrent xs

end Trigger

/-- **Changes between snapshots.** They tell of every key in which way it differs, in order and
once. There are none if and only if the properties are the same; on the way back they are turned
around; and they lead from one snapshot to the other. In a run of a trigger only the first outcome
with changes may come without any. -/
theorem Snapshot.changes_lead (s t : Snapshot) :
    (s.changes t).Exact s t ∧ ((s.changes t).isEmpty = true ↔ s.alike t = true) ∧
      t.changes s = (s.changes t).turned ∧
      (s.changes t).applied s.properties t.properties = t.properties ∧
      ∀ limit xs, ∀ c ∈ ((Trigger.new limit).carried xs).tail, c.isEmpty = false := by
  have hexact := s.exact_changes t
  refine ⟨hexact, ?_, (t.exact_changes s).unique hexact.turned, hexact.applied_eq,
    fun limit xs => Trigger.carried_tail rfl xs⟩
  rw [hexact.isEmpty_iff, alike, beq_iff_eq]

end LiveConfig
