import LiveConfig.Proofs.SortedMap
import LiveConfig.Resolution

/-!
# What an interest is in

The interest of a resolution is in everything that its rules can ask for and in everything that they
found, and there is a scope to watch for every object that is of concern.

## Main definitions

* `Interest.Declares` — an interest is in all that a rule can ask for
* `Interest.Within` — one interest is in all that another is in

## Main results

* `Interest.declares_ofRules`, `Interest.contains_ofRules` — the interest of a resolution
* `Interest.scope_mem_of_covers` — objects of concern are watched
-/

namespace LiveConfig

namespace Interest

/-- An interest is in all that a rule can ask for. -/
def Declares (i : Interest) (o : Options) (space : String) (r : Rule) : Prop :=
  match r.selection with
  | .named name => ∀ n ∈ name :: o.variants name, i.keys.contains (r.keyIn space n) = true
  | .labelled labels => ⟨r.scopeIn space, labels⟩ ∈ i.selectors

theorem contains_foldl_addKey (ks : List ObjectKey) (i : Interest) (k : ObjectKey) :
    (ks.foldl addKey i).keys.contains k = true ↔ k ∈ ks ∨ i.keys.contains k = true := by
  induction ks generalizing i with
  | nil => simp
  | cons a ks ih =>
    rw [List.foldl_cons, ih, List.mem_cons, addKey, SortedMap.contains_insert]
    exact or_left_comm.trans or_assoc.symm

theorem selectors_foldl_addKey (ks : List ObjectKey) (i : Interest) :
    (ks.foldl addKey i).selectors = i.selectors := by
  induction ks generalizing i with
  | nil => rfl
  | cons a ks ih => rw [List.foldl_cons, ih, addKey]

theorem keys_addSelector (i : Interest) (s : Selector) : (i.addSelector s).keys = i.keys := by
  unfold addSelector
  split <;> rfl

theorem mem_selectors_addSelector (i : Interest) (s t : Selector) :
    t ∈ (i.addSelector s).selectors ↔ t = s ∨ t ∈ i.selectors := by
  unfold addSelector
  split
  · rename_i h
    exact ⟨Or.inr, fun ht => ht.elim (fun e => e ▸ h) id⟩
  · rw [List.mem_append, List.mem_singleton, or_comm]

/-- One interest is in all that another is in. -/
structure Within (i j : Interest) : Prop where
  keys : ∀ {k}, i.keys.contains k = true → j.keys.contains k = true
  selectors : ∀ {s}, s ∈ i.selectors → s ∈ j.selectors

theorem Within.refl (i : Interest) : i.Within i := ⟨id, id⟩

theorem Within.trans {i j l : Interest} (hij : i.Within j) (hjl : j.Within l) : i.Within l :=
  ⟨fun h => hjl.keys (hij.keys h), fun h => hjl.selectors (hij.selectors h)⟩

theorem Within.declares {i j : Interest} (h : i.Within j) {o : Options} {space : String} {r : Rule}
    (hi : i.Declares o space r) : j.Declares o space r := by
  cases hsel : r.selection with
  | named name =>
    simp only [Declares, hsel] at hi ⊢
    exact fun n hn => h.keys (hi n hn)
  | labelled labels =>
    simp only [Declares, hsel] at hi ⊢
    exact h.selectors hi

theorem within_foldl_addKey (ks : List ObjectKey) (i : Interest) :
    i.Within (ks.foldl addKey i) where
  keys h := (contains_foldl_addKey ks i _).mpr (Or.inr h)
  selectors h := by rwa [selectors_foldl_addKey]

theorem within_rule (o : Options) (space : String) (i : Interest) (r : Rule) :
    i.Within (r.interest o space i) := by
  cases hsel : r.selection with
  | named name =>
    simp only [Rule.interest, hsel]
    exact within_foldl_addKey _ i
  | labelled labels =>
    simp only [Rule.interest, hsel]
    refine ⟨fun h => by rwa [keys_addSelector], fun h => ?_⟩
    exact (mem_selectors_addSelector i _ _).mpr (Or.inr h)

theorem declares_rule (o : Options) (space : String) (i : Interest) (r : Rule) :
    (r.interest o space i).Declares o space r := by
  cases hsel : r.selection with
  | named name =>
    simp only [Rule.interest, Declares, hsel]
    exact fun n hn => (contains_foldl_addKey _ i _).mpr (Or.inl (List.mem_map_of_mem hn))
  | labelled labels =>
    simp only [Rule.interest, Declares, hsel]
    exact (mem_selectors_addSelector i _ _).mpr (Or.inl rfl)

theorem within_foldl_rule (o : Options) (space : String) (rules : List Rule) (i : Interest) :
    i.Within (rules.foldl (Rule.interest o space) i) := by
  induction rules generalizing i with
  | nil => exact .refl i
  | cons r rules ih => exact (within_rule o space i r).trans (ih _)

theorem declares_foldl_rule {o : Options} {space : String} {rules : List Rule} {r : Rule}
    (hr : r ∈ rules) (i : Interest) :
    (rules.foldl (Rule.interest o space) i).Declares o space r := by
  induction rules generalizing i with
  | nil => cases hr
  | cons a rules ih =>
    rcases List.mem_cons.mp hr with rfl | hr
    · exact (within_foldl_rule o space rules _).declares (declares_rule o space i r)
    · exact ih hr _

/-- The interest of a resolution is in all that its rules can ask for. -/
theorem declares_ofRules {o : Options} {space : String} {rules : List Rule} {r : Rule}
    (hr : r ∈ rules) (res : Resolution) : (ofRules o space rules res).Declares o space r :=
  (within_foldl_addKey _ _).declares (declares_foldl_rule hr ∅)

/-- The interest of a resolution is in every object that was found. -/
theorem contains_ofRules (o : Options) (space : String) (rules : List Rule) {res : Resolution}
    {k : ObjectKey} (hk : res.objects.contains k = true) :
    (ofRules o space rules res).keys.contains k = true :=
  (contains_foldl_addKey _ _ _).mpr (Or.inl (SortedMap.mem_keys.mpr hk))

/-! ### Objects of concern -/

theorem covers_of_key {i : Interest} {k : ObjectKey} (hk : i.keys.contains k = true)
    (labels : Option Labels) : i.covers k labels = true := by
  unfold covers
  rw [hk, Bool.true_or]

theorem covers_iff {i : Interest} {k : ObjectKey} {labels : Labels} :
    i.covers k (some labels) = true ↔ i.keys.contains k = true ∨
      ∃ s ∈ i.selectors, s.scope = k.scope ∧ s.labels.subset labels = true := by
  simp [covers, selects]

theorem mem_scopes {i : Interest} {c : Scope} :
    c ∈ i.scopes ↔ (∃ k, i.keys.contains k = true ∧ k.scope = c) ∨
      ∃ s ∈ i.selectors, s.scope = c := by
  rw [scopes, SortedMap.mem_keys, SortedMap.contains_ofList, List.map_map]
  simp [SortedMap.mem_keys]

/-- Every object of concern belongs to a scope that is watched. -/
theorem scope_mem_of_covers {i : Interest} {k : ObjectKey} {labels : Labels}
    (h : i.covers k (some labels) = true) : k.scope ∈ i.scopes := by
  rw [mem_scopes]
  rcases covers_iff.mp h with hk | ⟨s, hs, hscope, -⟩
  · exact Or.inl ⟨k, hk, rfl⟩
  · exact Or.inr ⟨s, hs, hscope⟩

theorem isEmpty_eq_false_of_covers {i : Interest} {k : ObjectKey} {labels : Labels}
    (h : i.covers k (some labels) = true) : i.isEmpty = false := by
  rw [isEmpty, Bool.and_eq_false_iff]
  rcases covers_iff.mp h with hk | ⟨s, hs, -⟩
  · obtain ⟨u, hu⟩ := SortedMap.contains_iff.mp hk
    exact Or.inl (List.isEmpty_eq_false_iff_exists_mem.mpr
      ⟨(k, u), SortedMap.get?_eq_some_iff.mp hu⟩)
  · exact Or.inr (List.isEmpty_eq_false_iff_exists_mem.mpr ⟨s, hs⟩)

/-- Nothing is left out if both kinds are monitored. -/
theorem restrict_monitored (i : Interest) : i.restrict (Kind.monitored true true) = i := by
  have hkind : ∀ k : Kind, Kind.monitored true true k = true := by
    intro k
    cases k <;> rfl
  have hkeys : (i.keys.filter fun k _ => Kind.monitored true true k.kind) = i.keys :=
    SortedMap.filter_eq_self fun k _ _ => hkind k.kind
  have hselectors : (i.selectors.filter fun s => Kind.monitored true true s.scope.kind) =
      i.selectors :=
    List.filter_eq_self.mpr fun s _ => hkind s.scope.kind
  rw [restrict, hkeys, hselectors]

end Interest

end LiveConfig
