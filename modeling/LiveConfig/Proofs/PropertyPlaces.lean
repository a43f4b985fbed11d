import LiveConfig.Proofs.KeyPaths
import LiveConfig.Proofs.TreeContents
import Mathlib.Data.List.Induction

/-!
# What is lost when properties are arranged

Properties come in the order of their keys, each with a path of its own, and paths may get in each
other's way: a text cannot stand where a record or list stands, and a record cannot stand where a
list does. So the tree of some properties need not have all of them. It loses only what it must
(`Binding.Tree.Arranges`): a text is missing only if another property has the same path, goes on
behind it, or wants a list where this one wants a record. A text in the way of a longer path never
costs the longer one. And nothing is in the tree that no property has put there, except the nulls
that make up the length of a list.

## Main definitions

* `Snapshot.Holds` — a property under a qualifier
* `Binding.Displaces` — a path takes away what stands at another one
* `Binding.Tree.Arranges` — a tree has what it must have of some properties, and nothing else

## Main results

* `Binding.Tree.at?_ofProperties_text` — a text in a tree is that of the last property at its path
* `Binding.Tree.at?_ofProperties_leads` — everything in a tree lies on the path of a property
* `Binding.Tree.at?_ofProperties_kept` — a property that nothing displaces is in the tree
* `Binding.Tree.arranges_ofSnapshot` — the same of a snapshot and a qualifier
-/

namespace LiveConfig

namespace Snapshot

/-- The key that a property has if this is what is left of it under a qualifier. All keys are under
the empty one. -/
def qualified (qualifier key : String) : String :=
  if qualifier = "" then key else qualifier ++ "." ++ key

/-- A snapshot has a property under a qualifier, and this is what is left of its key. -/
def Holds (s : Snapshot) (qualifier key value : String) : Prop :=
  s.properties.get? (qualified qualifier key) = some value

/-- The properties under a qualifier, by what is left of their keys, in the order of the keys. -/
def bound (s : Snapshot) (qualifier : String) : List (String × String) :=
  if qualifier.isEmpty then s.properties.entries else s.under qualifier

theorem unqualified?_eq_some_iff {qualifier key rest : String} :
    unqualified? qualifier key = some rest ↔ key = qualifier ++ "." ++ rest := by
  have hlead : qualifier.toList ++ ['.'] = (qualifier ++ ".").toList := by simp
  rw [unqualified?, hlead]
  constructor
  · intro h
    split at h
    · rename_i hlead
      obtain ⟨r, hr⟩ := List.isPrefixOf_iff_prefix.mp hlead
      obtain rfl := Option.some.inj h
      rw [← hr, List.drop_left]
      refine String.toList_injective ?_
      simp [← hr]
    · cases h
  · rintro rfl
    have hkey : (qualifier ++ "." ++ rest).toList = (qualifier ++ ".").toList ++ rest.toList :=
      String.toList_append
    rw [hkey, if_pos (List.isPrefixOf_iff_prefix.mpr (List.prefix_append _ _)), List.drop_left,
      String.ofList_toList]

theorem mem_under_iff {s : Snapshot} {qualifier key value : String} :
    (key, value) ∈ s.under qualifier ↔ (qualifier ++ "." ++ key, value) ∈ s.properties.entries := by
  rw [under, List.mem_filterMap]
  constructor
  · rintro ⟨⟨k, v⟩, he, h⟩
    obtain ⟨rest, hrest, heq⟩ := Option.map_eq_some_iff.mp h
    obtain ⟨rfl, rfl⟩ := Prod.mk.inj heq
    rwa [← unqualified?_eq_some_iff.mp hrest]
  · intro he
    exact ⟨_, he, Option.map_eq_some_iff.mpr ⟨key, unqualified?_eq_some_iff.mpr rfl, rfl⟩⟩

theorem mem_bound_iff {s : Snapshot} {qualifier key value : String} :
    (key, value) ∈ s.bound qualifier ↔ s.Holds qualifier key value := by
  simp only [bound, Holds, qualified, SortedMap.get?_eq_some_iff, String.isEmpty_iff]
  split
  · rfl
  · exact mem_under_iff

theorem pairwise_bound (s : Snapshot) (qualifier : String) : (s.bound qualifier).Pairwise
    fun a b => compare (qualified qualifier a.1) (qualified qualifier b.1) = .lt := by
  simp only [bound, qualified, String.isEmpty_iff]
  split
  · exact s.properties.ascending
  · refine s.properties.ascending.filterMap _ fun e e' hlt b hb b' hb' => ?_
    obtain ⟨k, hk, rfl⟩ := Option.map_eq_some_iff.mp hb
    obtain ⟨k', hk', rfl⟩ := Option.map_eq_some_iff.mp hb'
    rwa [← unqualified?_eq_some_iff.mp hk, ← unqualified?_eq_some_iff.mp hk']

end Snapshot

namespace Binding

/-- What is put at the first path takes away a text at the second one: it is put at the same path,
or the first path goes on behind the second one, or the two clash. -/
def Displaces (q p : List Segment) : Prop := p <+: q ∨ Clash p q

/-- A path begins with a field. -/
theorem pathOf_eq_cons (key : String) : ∃ name p, pathOf key = .field name :: p := by
  rw [pathOf]
  cases hparts : partsOf key.toList with
  | nil => exact absurd hparts (partsOf_ne_nil _)
  | cons part parts =>
    rw [List.flatMap_cons, segmentsOf]
    split <;> exact ⟨_, _, rfl⟩

namespace Tree

/-! ### One property after the other -/

theorem ofProperties_concat (l : List (String × String)) (e : String × String) :
    ofProperties (l ++ [e]) = (ofProperties l).put e.2 (pathOf e.1) := by
  rw [ofProperties, List.foldl_append]
  rfl

theorem ordered_ofProperties (l : List (String × String)) : (ofProperties l).Ordered := by
  induction l using List.reverseRecOn with
  | nil => exact .record .nil (List.forall_mem_nil _)
  | append_singleton l e ih =>
    rw [ofProperties_concat]
    exact ih.put _ _

/-- **Everything in a tree lies on the path of a property**, except for items that make up the
length of a list. -/
theorem at?_ofProperties_leads {l : List (String × String)} {p : List Segment} {x : Tree}
    (hp : p ≠ []) (h : at? p (ofProperties l) = some x) :
    (∃ e ∈ l, p <+: pathOf e.1) ∨ x = .null ∧ ∃ p' i, p = p' ++ [.index i] := by
  induction l using List.reverseRecOn with
  | nil =>
    cases p with
    | nil => exact absurd rfl hp
    | cons s p => cases isPopulated_of_at?_cons h
  | append_singleton l e ih =>
    by_cases hlead : p <+: pathOf e.1
    · exact Or.inl ⟨e, List.mem_append_right _ List.mem_cons_self, hlead⟩
    · rw [ofProperties_concat] at h
      rcases at?_put_elsewhere hlead h with h | h
      · exact (ih h).imp_left fun ⟨e, he, hpath⟩ => ⟨e, List.mem_append_left _ he, hpath⟩
      · exact Or.inr h

theorem eq_of_put_eq_text {v w : String} {p : List Segment} {t : Tree}
    (h : t.put v p = .text w) : p = [] ∧ v = w := by
  cases p with
  | nil =>
    rw [put] at h
    split at h
    · rename_i hpopulated
      rw [h] at hpopulated
      cases hpopulated
    · exact ⟨rfl, by cases h; rfl⟩
  | cons s p =>
    have hpopulated := isPopulated_put_cons v s p t
    rw [h] at hpopulated
    cases hpopulated

/-- **A text in a tree is that of the last property at its path.** -/
theorem at?_ofProperties_text {l : List (String × String)} {p : List Segment} {v : String}
    (h : at? p (ofProperties l) = some (.text v)) : ∃ before k after,
      l = before ++ (k, v) :: after ∧ pathOf k = p ∧ ∀ e ∈ after, pathOf e.1 ≠ p := by
  induction l using List.reverseRecOn with
  | nil =>
    cases p with
    | nil => cases h
    | cons s p => cases isPopulated_of_at?_cons h
  | append_singleton l e ih =>
    obtain ⟨key, w⟩ := e
    rw [ofProperties_concat] at h
    by_cases hlead : p <+: pathOf key
    · obtain ⟨r, hr⟩ := hlead
      rw [← hr, at?_put_append] at h
      obtain ⟨rfl, rfl⟩ := eq_of_put_eq_text (Option.some.inj h)
      exact ⟨l, key, [], rfl, by rw [← hr, List.append_nil], List.forall_mem_nil _⟩
    · rcases at?_put_elsewhere hlead h with h | ⟨hnull, -⟩
      · obtain ⟨before, k, after, rfl, hk, hafter⟩ := ih h
        refine ⟨before, k, after ++ [(key, w)], by simp, hk, fun e he hpath => ?_⟩
        rcases List.mem_append.mp he with he | he
        · exact hafter e he hpath
        · rw [List.mem_singleton.mp he] at hpath
          exact hlead (hpath ▸ List.prefix_rfl)
      · cases hnull

/-- **A property that nothing displaces is in the tree.** -/
theorem at?_ofProperties_kept {l l' : List (String × String)} {k v : String}
    (h : ∀ e ∈ l ++ l', ¬ Displaces (pathOf e.1) (pathOf k)) :
    at? (pathOf k) (ofProperties (l ++ (k, v) :: l')) = some (.text v) := by
  induction l' using List.reverseRecOn with
  | nil =>
    rw [List.append_nil] at h
    have hnone : (at? (pathOf k) (ofProperties l)).getD .null = .null := by
      cases hx : at? (pathOf k) (ofProperties l) with
      | none => rfl
      | some x =>
        obtain ⟨name, p, hpath⟩ := pathOf_eq_cons k
        rcases at?_ofProperties_leads (by simp [hpath]) hx with ⟨e, he, hlead⟩ | ⟨rfl, -⟩
        · exact absurd (Or.inl hlead) (h e he)
        · rfl
    have hput := at?_put_append v (pathOf k) [] (ofProperties l)
    rw [List.append_nil, hnone] at hput
    rw [ofProperties_concat, hput]
    rfl
  | append_singleton l' e ih =>
    have hbefore := ih fun e he => h e (by
      rw [← List.append_assoc]
      exact List.mem_append_left _ he)
    have he : ¬ Displaces (pathOf e.1) (pathOf k) := h e (by simp)
    have hconcat : l ++ (k, v) :: (l' ++ [e]) = (l ++ (k, v) :: l') ++ [e] := by simp
    rw [hconcat, ofProperties_concat]
    exact at?_put_of_stays (fun hclash => he (Or.inr hclash)) hbefore
      (fun hlead => absurd (Or.inl hlead) he) _

/-! ### The properties of a snapshot -/

/-- A tree has what it must have of the properties under a qualifier, and nothing that they do not
put there. -/
structure Arranges (t : Tree) (s : Snapshot) (qualifier : String) : Prop where
  /-- A property that no other one displaces is there, whatever stands on the way to it. -/
  kept : ∀ k v, s.Holds qualifier k v →
    (∀ k' v', s.Holds qualifier k' v' → k' ≠ k → ¬ Displaces (pathOf k') (pathOf k)) →
      t.at? (pathOf k) = some (.text v)
  /-- A text is that of the last property at its path, in the order of the keys. -/
  last : ∀ p v, t.at? p = some (.text v) → ∃ k, s.Holds qualifier k v ∧ pathOf k = p ∧
    ∀ k' v', s.Holds qualifier k' v' → pathOf k' = p →
      k' = k ∨ compare (Snapshot.qualified qualifier k') (Snapshot.qualified qualifier k) = .lt
  /-- No name of a field is repeated in a record, so that paths reach everything. -/
  ordered : t.Ordered
  /-- A field lies on the path of a property. -/
  fields : ∀ p fs, t.at? p = some (.record fs) → ∀ e ∈ fs,
    ∃ k v, s.Holds qualifier k v ∧ p ++ [.field e.1] <+: pathOf k
  /-- An item lies on the path of a property unless it is null. -/
  items : ∀ p ts, t.at? p = some (.list ts) → ∀ i x, ts[i]? = some x →
    x = .null ∨ ∃ k v, s.Holds qualifier k v ∧ p ++ [.index i] <+: pathOf k

theorem ofSnapshot_eq (s : Snapshot) (qualifier : String) :
    ofSnapshot s qualifier = ofProperties (s.bound qualifier) := rfl

section Bound

variable {s : Snapshot} {qualifier : String}

theorem at?_bound_kept {k v : String} (h : s.Holds qualifier k v)
    (hothers : ∀ k' v', s.Holds qualifier k' v' → k' ≠ k → ¬ Displaces (pathOf k') (pathOf k)) :
    at? (pathOf k) (ofProperties (s.bound qualifier)) = some (.text v) := by
  have hpairwise := s.pairwise_bound qualifier
  obtain ⟨l, l', hl⟩ := List.append_of_mem (Snapshot.mem_bound_iff.mpr h)
  rw [hl] at hpairwise ⊢
  obtain ⟨-, hafter, hbefore⟩ := List.pairwise_append.mp hpairwise
  refine at?_ofProperties_kept fun e he => hothers e.1 e.2 ?_ ?_
  · rw [← Snapshot.mem_bound_iff, hl]
    rcases List.mem_append.mp he with he | he
    · exact List.mem_append_left _ he
    · exact List.mem_append_right _ (List.mem_cons_of_mem _ he)
  · rintro rfl
    have hself : compare (Snapshot.qualified qualifier e.1) (Snapshot.qualified qualifier e.1) =
        .eq := Std.ReflCmp.compare_self
    have hlt := (List.mem_append.mp he).elim (hbefore e · (e.1, v) List.mem_cons_self)
      ((List.pairwise_cons.mp hafter).1 e)
    rw [hself] at hlt
    cases hlt

theorem at?_bound_last {p : List Segment} {v : String}
    (h : at? p (ofProperties (s.bound qualifier)) = some (.text v)) :
    ∃ k, s.Holds qualifier k v ∧ pathOf k = p ∧
      ∀ k' v', s.Holds qualifier k' v' → pathOf k' = p → k' = k ∨
        compare (Snapshot.qualified qualifier k') (Snapshot.qualified qualifier k) = .lt := by
  have hpairwise := s.pairwise_bound qualifier
  obtain ⟨before, k, after, hl, hpath, hafter⟩ := at?_ofProperties_text h
  rw [hl] at hpairwise
  refine ⟨k, Snapshot.mem_bound_iff.mp (by simp [hl]), hpath, fun k' v' hk' hpath' => ?_⟩
  rw [← Snapshot.mem_bound_iff, hl] at hk'
  rcases List.mem_append.mp hk' with hk' | hk'
  · exact Or.inr ((List.pairwise_append.mp hpairwise).2.2 (k', v') hk' (k, v) List.mem_cons_self)
  · rcases List.mem_cons.mp hk' with heq | hk'
    · exact Or.inl (congrArg Prod.fst heq)
    · exact absurd hpath' (hafter (k', v') hk')

/-- What stands behind a step lies on the path of a property, or makes up the length of a list. -/
theorem at?_bound_leads {p : List Segment} {c : Segment} {x : Tree}
    (h : at? (p ++ [c]) (ofProperties (s.bound qualifier)) = some x) :
    (∃ k v, s.Holds qualifier k v ∧ p ++ [c] <+: pathOf k) ∨ x = .null ∧ ∃ i, c = .index i := by
  rcases at?_ofProperties_leads (by simp) h with ⟨⟨k, v⟩, hk, hpath⟩ | ⟨hx, p', i, hlast⟩
  · exact Or.inl ⟨k, v, Snapshot.mem_bound_iff.mp hk, hpath⟩
  · exact Or.inr ⟨hx, i, (List.cons.inj (List.append_inj' hlast rfl).2).1⟩

end Bound

/-- **Nothing is lost but what must be**, and nothing is there that no property has put there. -/
theorem arranges_ofSnapshot (s : Snapshot) (qualifier : String) :
    (ofSnapshot s qualifier).Arranges s qualifier := by
  have hordered := ordered_ofProperties (s.bound qualifier)
  rw [ofSnapshot_eq]
  refine ⟨fun k v hk hothers => at?_bound_kept hk hothers, fun p v hv => at?_bound_last hv,
    hordered, fun p fs hfs e he => ?_, fun p ts hts i x hx => ?_⟩
  · rcases at?_bound_leads (hordered.at?_field hfs he) with h | ⟨-, i, hi⟩
    · exact h
    · cases hi
  · have hitem : at? (p ++ [.index i]) (ofProperties (s.bound qualifier)) = some x := by
      rw [at?_append, hts, Option.bind_some, at?_cons, child?, hx]
      rfl
    rcases at?_bound_leads hitem with h | ⟨hnull, -⟩
    · exact Or.inr h
    · exact Or.inl hnull

/-- A text in the way of a longer path gives way to it. -/
theorem arranges_ofSnapshot_beneath :
    (ofSnapshot ⟨.ofList [("a", "1"), ("a.b[1]", "2")], ∅⟩ "").at?
      [.field "a", .field "b", .index 1] = some (.text "2") := by
  refine (arranges_ofSnapshot _ "").kept "a.b[1]" "2" rfl fun k v h hne => ?_
  have hmem : (k, v) ∈ [("a", "1"), ("a.b[1]", "2")] := Snapshot.mem_bound_iff.mpr h
  simp only [List.mem_cons, List.not_mem_nil, or_false, Prod.mk.injEq] at hmem
  obtain ⟨rfl, -⟩ | ⟨rfl, -⟩ := hmem
  · rintro (hlead | hclash)
    · revert hlead
      decide
    · have hpath : pathOf "a" = [.field "a"] := by decide
      rw [hpath] at hclash
      cases hclash with
      | behind _ h => cases h
  · exact absurd rfl hne

end Tree

end Binding

end LiveConfig
