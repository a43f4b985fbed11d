import LiveConfig.SortedMap

/-!
# Membership in sorted maps

Which keys and values the operations of `SortedMap` leave in a map. `SortedMap` itself says what
they do to look-ups; here that is read as membership, which is what sets of keys and lists of values
need. The order in which entries with different keys are put into a map does not matter.

## Main results

* `SortedMap.get?_filter` — filtering filters the look-ups
* `SortedMap.contains_insertMany`, `SortedMap.contains_ofList` — the keys of a list of entries
* `SortedMap.get?_ofList_iff` — the value at a key is that of its last entry in a list
* `SortedMap.get?_ofList_of_pairwise` — the same if what stands at one key stands in an order
* `SortedMap.values_filter` — filtering by value is filtering the values
* `SortedMap.insertEntry_comm` — entries with different keys can be put in either order
* `SortedMap.entries_ofList_perm` — entries with different keys are the entries of their map
-/

namespace LiveConfig

namespace SortedMap

universe u v w

variable {α : Type u} {β : Type v} {γ : Type w} [Ord α] [Std.TransOrd α] [Std.LawfulEqOrd α]

omit [Std.TransOrd α] [Std.LawfulEqOrd α] in
theorem contains_iff {m : SortedMap α β} {k : α} :
    m.contains k = true ↔ ∃ v, m.get? k = some v := by
  rw [contains, Option.isSome_iff_exists]

theorem mem_keys {m : SortedMap α β} {k : α} : k ∈ m.keys ↔ m.contains k = true := by
  rw [contains_iff, keys, List.mem_map]
  constructor
  · rintro ⟨⟨k', v⟩, he, rfl⟩
    exact ⟨v, get?_eq_some_iff.mpr he⟩
  · rintro ⟨v, hv⟩
    exact ⟨(k, v), get?_eq_some_iff.mp hv, rfl⟩

theorem mem_values {m : SortedMap α β} {v : β} : v ∈ m.values ↔ ∃ k, m.get? k = some v := by
  rw [values, List.mem_map]
  constructor
  · rintro ⟨⟨k, v'⟩, he, rfl⟩
    exact ⟨k, get?_eq_some_iff.mpr he⟩
  · rintro ⟨k, hk⟩
    exact ⟨(k, v), get?_eq_some_iff.mp hk, rfl⟩

theorem get?_insert_eq [DecidableEq α] (m : SortedMap α β) (k x : α) (v : β) :
    (m.insert k v).get? x = if x = k then some v else m.get? x := by
  simp only [get?_insert, Std.compare_eq_iff_eq]

omit [Std.TransOrd α] in
theorem get?_erase_eq [DecidableEq α] (m : SortedMap α β) (k x : α) :
    (m.erase k).get? x = if x = k then none else m.get? x := by
  simp only [get?_erase, Std.compare_eq_iff_eq, @eq_comm _ k x]

theorem get?_filter (p : α → β → Bool) (m : SortedMap α β) (k : α) :
    (m.filter p).get? k = (m.get? k).filter (p k) := by
  refine Option.ext fun v => ?_
  rw [get?_eq_some_iff, Option.filter_eq_some_iff, get?_eq_some_iff, filter, List.mem_filter]

omit [Std.TransOrd α] [Std.LawfulEqOrd α] in
theorem values_filter (p : β → Bool) (m : SortedMap α β) :
    (m.filter fun _ v => p v).values = m.values.filter p := by
  rw [values, values, filter, List.filter_map]
  rfl

/-- Filtering by a test that nothing fails does nothing. -/
theorem filter_eq_self {p : α → β → Bool} {m : SortedMap α β}
    (h : ∀ k v, m.get? k = some v → p k v = true) : m.filter p = m := by
  refine ext_get? fun k => ?_
  rw [get?_filter]
  cases hk : m.get? k with
  | none => rfl
  | some v => simp [h k v hk]

theorem contains_insert (m : SortedMap α β) (k x : α) (v : β) :
    (m.insert k v).contains x = true ↔ x = k ∨ m.contains x = true := by
  rw [contains, contains, get?_insert]
  by_cases h : x = k
  · simp [h, Std.ReflCmp.compare_self]
  · simp [h]

theorem contains_insertMany (l : List (α × β)) (m : SortedMap α β) (x : α) :
    (m.insertMany l).contains x = true ↔ x ∈ l.map Prod.fst ∨ m.contains x = true := by
  induction l generalizing m with
  | nil => simp [insertMany]
  | cons e l ih =>
    have hstep : m.insertMany (e :: l) = (m.insert e.1 e.2).insertMany l := rfl
    rw [hstep, ih, contains_insert, List.map_cons, List.mem_cons]
    exact or_left_comm.trans or_assoc.symm

theorem contains_ofList (l : List (α × β)) (x : α) :
    (ofList l).contains x = true ↔ x ∈ l.map Prod.fst := by
  rw [ofList, contains_insertMany]
  exact or_iff_left nofun

theorem insertMany_append (m : SortedMap α β) (l l' : List (α × β)) :
    m.insertMany (l ++ l') = (m.insertMany l).insertMany l' :=
  List.foldl_append

theorem get?_insertMany_iff {l : List (α × β)} {m : SortedMap α β} {k : α} {v : β} :
    (m.insertMany l).get? k = some v ↔
      (∃ before after, l = before ++ (k, v) :: after ∧ ∀ e ∈ after, e.1 ≠ k) ∨
        m.get? k = some v ∧ ∀ e ∈ l, e.1 ≠ k := by
  induction l generalizing m with
  | nil => simp [insertMany]
  | cons e l ih =>
    obtain ⟨k', v'⟩ := e
    have hstep : m.insertMany ((k', v') :: l) = (m.insert k' v').insertMany l := rfl
    rw [hstep, ih, get?_insert]
    constructor
    · rintro (⟨before, after, rfl, hafter⟩ | ⟨hget, hl⟩)
      · exact Or.inl ⟨(k', v') :: before, after, rfl, hafter⟩
      · by_cases hk : compare k k' = .eq
        · obtain rfl : k = k' := Std.LawfulEqCmp.eq_of_compare hk
          obtain rfl : v' = v := by simpa [hk] using hget
          exact Or.inl ⟨[], l, rfl, hl⟩
        · rw [if_neg hk] at hget
          refine Or.inr ⟨hget, fun e he => ?_⟩
          rcases List.mem_cons.mp he with rfl | he
          · rintro rfl
            exact hk Std.ReflCmp.compare_self
          · exact hl e he
    · rintro (⟨before, after, heq, hafter⟩ | ⟨hget, hl⟩)
      · rcases List.cons_eq_append_iff.mp heq with ⟨rfl, hhead⟩ | ⟨before', rfl, htail⟩
        · cases hhead
          exact Or.inr ⟨if_pos Std.ReflCmp.compare_self, hafter⟩
        · exact Or.inl ⟨before', after, htail, hafter⟩
      · have hk : compare k k' ≠ .eq := by
          intro hk
          obtain rfl : k = k' := Std.LawfulEqCmp.eq_of_compare hk
          exact hl (k, v') List.mem_cons_self rfl
        exact Or.inr ⟨by rw [if_neg hk, hget], fun e he => hl e (List.mem_cons_of_mem _ he)⟩

/-- The last entry at a key counts. -/
theorem get?_ofList_iff {l : List (α × β)} {k : α} {v : β} : (ofList l).get? k = some v ↔
    ∃ before after, l = before ++ (k, v) :: after ∧ ∀ e ∈ after, e.1 ≠ k := by
  rw [ofList, get?_insertMany_iff]
  exact or_iff_left nofun

/-- The last of what is put at a key counts. -/
theorem get?_ofList_map_iff {key : γ → α} {value : γ → β} {cs : List γ} {k : α} {v : β} :
    (ofList (cs.map fun c => (key c, value c))).get? k = some v ↔ ∃ before c after,
      cs = before ++ c :: after ∧ key c = k ∧ value c = v ∧ ∀ d ∈ after, key d ≠ k := by
  rw [get?_ofList_iff]
  constructor
  · rintro ⟨earlier, later, hsplit, hlater⟩
    obtain ⟨before, rest, rfl, rfl, hrest⟩ := List.map_eq_append_iff.mp hsplit
    obtain ⟨c, after, rfl, hc, rfl⟩ := List.map_eq_cons_iff.mp hrest
    obtain ⟨rfl, rfl⟩ := Prod.mk.inj hc
    exact ⟨before, c, after, rfl, rfl, rfl, fun d hd => hlater _ (List.mem_map_of_mem hd)⟩
  · rintro ⟨before, c, after, rfl, rfl, rfl, hafter⟩
    refine ⟨_, _, List.map_append.trans (congrArg _ (List.map_cons ..)), fun e he => ?_⟩
    obtain ⟨d, hd, rfl⟩ := List.mem_map.mp he
    exact hafter d hd

/-- Where what stands at the same key stands in order, the last of it has all else before it. -/
theorem get?_ofList_of_pairwise {key : γ → α} {value : γ → β} (before : γ → γ → Prop)
    (hirrefl : ∀ c, ¬ before c c) (htrans : ∀ {c d e}, before c d → before d e → before c e)
    {cs : List γ} (hcs : cs.Pairwise fun c d => key c = key d → before c d) {k : α} {v : β} :
    (ofList (cs.map fun c => (key c, value c))).get? k = some v ↔
      ∃ c ∈ cs, (∀ d ∈ cs, key d = key c → d = c ∨ before d c) ∧ key c = k ∧ value c = v := by
  rw [get?_ofList_map_iff]
  constructor
  · rintro ⟨cs₁, c, cs₂, rfl, rfl, rfl, hlater⟩
    refine ⟨c, List.mem_append_right _ List.mem_cons_self, fun d hd hkey => ?_, rfl, rfl⟩
    rcases List.mem_append.mp hd with hd | hd
    · exact Or.inr ((List.pairwise_append.mp hcs).2.2 d hd c List.mem_cons_self hkey)
    · rcases List.mem_cons.mp hd with rfl | hd
      · exact Or.inl rfl
      · exact absurd hkey (hlater d hd)
  · rintro ⟨c, hc, hlast, rfl, rfl⟩
    obtain ⟨cs₁, cs₂, rfl⟩ := List.append_of_mem hc
    refine ⟨cs₁, c, cs₂, rfl, rfl, rfl, fun d hd hkey => ?_⟩
    have hafter : before c d :=
      (List.pairwise_cons.mp (List.pairwise_append.mp hcs).2.1).1 d hd hkey.symm
    rcases hlast d (List.mem_append_right _ (List.mem_cons_of_mem _ hd)) hkey with rfl | hbefore
    · exact hirrefl d hafter
    · exact hirrefl c (htrans hafter hbefore)

theorem override_assoc (m n p : SortedMap α β) :
    (m.override n).override p = m.override (n.override p) := by
  refine ext_get? fun k => ?_
  simp only [get?_override, Option.or_assoc]

/-- To put entries over a map is to put their map over it. -/
theorem insertMany_eq_override (m : SortedMap α β) (l : List (α × β)) :
    m.insertMany l = m.override (ofList l) := by
  refine ext_get? fun k => Option.ext fun v => ?_
  rw [get?_override, get?_insertMany_iff, Option.or_eq_some_iff, get?_ofList_iff]
  refine or_congr_right ?_
  have hnone : (ofList l).get? k = none ↔ ∀ e ∈ l, e.1 ≠ k := by
    refine Option.not_isSome_iff_eq_none.symm.trans ((not_congr (contains_ofList l k)).trans ?_)
    rw [List.mem_map, not_exists]
    exact forall_congr' fun e => not_and
  rw [hnone, and_comm]

/-- A map is the map of its own entries. -/
theorem ofList_entries (m : SortedMap α β) : ofList m.entries = m := by
  refine ext_get? fun k => ?_
  rw [ofList, get?_insertMany m.ascending, get?_empty, Option.or_none]
  rfl

/-- Erasing a key does nothing if and only if the map does not have it. -/
theorem erase_eq_self_iff [DecidableEq α] {m : SortedMap α β} {k : α} :
    m.erase k = m ↔ ¬ m.contains k = true := by
  constructor
  · intro h hk
    rw [contains, ← h, get?_erase_eq, if_pos rfl] at hk
    cases hk
  · intro h
    have hnone : m.get? k = none := by simpa [contains] using h
    refine ext_get? fun x => ?_
    rw [get?_erase_eq]
    split
    · rename_i hx
      rw [hx, hnone]
    · rfl

/-! ### The order of insertions -/

omit [Std.TransOrd α] in
/-- Of two values put at the same key the later one stays. -/
theorem insertEntry_insertEntry_self (k : α) (v w : β) (l : List (α × β)) :
    insertEntry k v (insertEntry k w l) = insertEntry k v l := by
  induction l with
  | nil => simp [insertEntry, Std.ReflCmp.compare_self]
  | cons e l ih =>
    obtain ⟨k', v'⟩ := e
    rw [insertEntry, insertEntry.eq_2 k v k' v' l]
    cases hk : compare k k' with
    | lt => simp [insertEntry, Std.ReflCmp.compare_self]
    | eq => simp [insertEntry, Std.ReflCmp.compare_self]
    | gt => simp [insertEntry, hk, ih]

/-- Values at different keys can be put in either order, into any list. -/
theorem insertEntry_comm {k k' : α} (h : k ≠ k') (v v' : β) (l : List (α × β)) :
    insertEntry k v (insertEntry k' v' l) = insertEntry k' v' (insertEntry k v l) := by
  have key : ∀ {k k' : α}, compare k k' = .lt → ∀ v v' (l : List (α × β)),
      insertEntry k v (insertEntry k' v' l) = insertEntry k' v' (insertEntry k v l) := by
    intro k k' hlt v v' l
    have hgt : compare k' k = .gt := Std.OrientedCmp.gt_of_lt hlt
    induction l with
    | nil => simp [insertEntry, hlt, hgt]
    | cons e l ih =>
      obtain ⟨x, y⟩ := e
      cases hx : compare k x with
      | lt => cases hx' : compare k' x <;> simp [insertEntry, hx, hx', hlt, hgt]
      | eq =>
        obtain rfl : k = x := Std.LawfulEqCmp.eq_of_compare hx
        simp [insertEntry, hgt]
      | gt =>
        have hx' : compare k' x = .gt :=
          Std.OrientedCmp.gt_of_lt (Std.TransCmp.lt_trans (Std.OrientedCmp.lt_of_gt hx) hlt)
        simp [insertEntry, hx, hx', ih]
  cases hk : compare k k' with
  | lt => exact key hk v v' l
  | eq => exact absurd (Std.LawfulEqCmp.eq_of_compare hk) h
  | gt => exact (key (Std.OrientedCmp.lt_of_gt hk) v' v l).symm

omit [Std.TransOrd α] [Std.LawfulEqOrd α] in
theorem insertEntry_perm {k : α} {l : List (α × β)} (h : lookup k l = none) (v : β) :
    (insertEntry k v l).Perm ((k, v) :: l) := by
  induction l with
  | nil => exact .refl _
  | cons e l ih =>
    obtain ⟨k', v'⟩ := e
    rw [lookup] at h
    cases hk : compare k k' with
    | lt => simp [insertEntry, hk]
    | eq => simp [hk] at h
    | gt =>
      rw [if_neg (by simp [hk])] at h
      simp only [insertEntry, hk]
      exact ((ih h).cons _).trans (.swap _ _ _)

/-- Entries with different keys are the entries of their map, but for the order. -/
theorem entries_ofList_perm {l : List (α × β)} (h : (l.map Prod.fst).Nodup) :
    (ofList l).entries.Perm l := by
  have key : ∀ (l : List (α × β)) (m : SortedMap α β), (l.map Prod.fst).Nodup →
      (∀ e ∈ l, m.get? e.1 = none) → (m.insertMany l).entries.Perm (m.entries ++ l) := by
    intro l
    induction l with
    | nil => intro m _ _; simp [insertMany]
    | cons e l ih =>
      intro m hl hm
      rw [List.map_cons, List.nodup_cons] at hl
      obtain ⟨he, hrest⟩ := List.forall_mem_cons.mp hm
      have hfresh : ∀ e' ∈ l, (m.insert e.1 e.2).get? e'.1 = none := by
        intro e' he'
        have hne : compare e'.1 e.1 ≠ .eq := by
          intro heq
          exact hl.1 (List.mem_map.mpr ⟨e', he', Std.LawfulEqCmp.eq_of_compare heq⟩)
        rw [get?_insert, if_neg hne, hrest e' he']
      have hstep : m.insertMany (e :: l) = (m.insert e.1 e.2).insertMany l := rfl
      rw [hstep]
      refine (ih _ hl.2 hfresh).trans ?_
      refine ((insertEntry_perm he e.2).append_right l).trans ?_
      exact List.perm_middle.symm
  exact key l ∅ h fun _ _ => rfl

end SortedMap

end LiveConfig
