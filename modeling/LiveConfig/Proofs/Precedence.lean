import LiveConfig.Manifest
import LiveConfig.Proofs.Merging

/-!
# Precedence among sources

The entries of a manifest select objects, the objects have entries, and the entries have properties,
so that a property can be contributed many times over. Which contribution counts is a matter of
where it stands: secrets stand behind config maps; entries of one kind stand in the order of the
manifest; what is selected by name stands in the order of the profiles, the name without a profile
first, and what is selected by labels in the order of the names; and in an object stand its entries,
by name again. The last contribution prevails.

Rules, resolution and merging each see to a part of that order. Here the contributions are listed in
the order in which they are merged, and the list is shown to hold every one in its place.

## Main definitions

* `Place`, `Contribution` — what is contributed where
* `Manifest.Contributes` — the contributions of a manifest, told from its entries
* `Manifest.Prevails` — a contribution has no later one at the same key
* `contributions` — those of a list of rules, in order

## Main results

* `Manifest.mem_contributions_iff` — nothing else is in the list
* `pairwise_contributions` — at each key the list is in order
* `Manifest.snapshot_iff_prevails` — a snapshot has what prevails, and nothing else
-/

namespace LiveConfig

/-! ### Places -/

/-- Where a contribution stands. -/
structure Place where
  /-- The kind of the objects, which is that of the list in the manifest. -/
  kind : Kind
  /-- The position of the entry in that list. -/
  index : Nat
  /-- The position among a name and its variants; zero for what is selected by labels. -/
  turn : Nat
  /-- The name of the object. -/
  name : String
  /-- The entry of the object. -/
  entry : String
  deriving DecidableEq

namespace Place

/-- Kind, then index, then turn, then name, then entry. -/
def order : Place → Place → Ordering :=
  compareLex (compareOn kind) (compareLex (compareOn index)
    (compareLex (compareOn turn) (compareLex (compareOn name) (compareOn entry))))

instance : Ord Place := ⟨order⟩

instance : Std.TransOrd Place :=
  inferInstanceAs (Std.TransCmp (compareLex (compareOn kind) (compareLex (compareOn index)
    (compareLex (compareOn turn) (compareLex (compareOn name) (compareOn entry))))))

theorem compare_eq_lt {a b : Place} : compare a b = .lt ↔
    a.kind = .configMap ∧ b.kind = .secret ∨ a.kind = b.kind ∧
      (a.index < b.index ∨ a.index = b.index ∧
        (a.turn < b.turn ∨ a.turn = b.turn ∧
          (a.name < b.name ∨ a.name = b.name ∧ a.entry < b.entry))) := by
  have hkind : compare a.kind b.kind = .lt ↔ a.kind = .configMap ∧ b.kind = .secret := by
    cases a.kind <;> cases b.kind <;> decide
  have hname : ∀ s t : String, compare s t = .lt ↔ s < t := fun _ _ => compareOfLessAndEq_eq_lt
  change order a b = .lt ↔ _
  simp only [order, compareLex, compareOn, Ordering.then_eq_lt, Std.compare_eq_iff_eq, hkind, hname,
    Nat.compare_eq_lt]

/-- No place stands before itself. -/
theorem irrefl (a : Place) : compare a a ≠ .lt := by
  simp [Std.ReflCmp.compare_self]

end Place

/-- A property that is contributed somewhere. -/
structure Contribution where
  place : Place
  key : String
  value : String
  deriving DecidableEq

/-! ### What a manifest contributes -/

section Manifest

variable (o : Options) (space : String) (s : Store)

/-- The qualifier for what an entry selects: its own unless that is empty, or else a name, if names
qualify. -/
def Entry.qualifierFor (e : Entry) (name : String) : Option String :=
  if e.qualifier.getD "" ≠ "" then e.qualifier
  else if e.nameQualifies.getD o.nameQualifies then some name else none

/-- An entry for objects of a kind selects one, in a turn and under a qualifier. -/
inductive Entry.Selects (kind : Kind) (e : Entry) : Nat → Object → Option String → Prop
  /-- By name: the object itself and its variants, all qualified by the name of the object. -/
  | named {name variant : String} {turn : Nat} {x : Object} (hname : e.name = some name)
      (hturn : (name :: o.profiles.map fun p => name ++ "-" ++ p)[turn]? = some variant)
      (hx : s.objects.get? ⟨kind, e.space.getD space, variant⟩ = some x) :
      Selects kind e turn x (e.qualifierFor o name)
  /-- By labels: every object that carries them, each qualified by its own name. -/
  | labelled {labels : Labels} {x : Object} (hlabels : e.labels = some labels)
      (hx : s.objects.get? x.key = some x) (hkind : x.key.kind = kind)
      (hspace : x.key.space = e.space.getD space) (hcarries : labels.subset x.labels = true) :
      Selects kind e 0 x (e.qualifierFor o x.key.name)

namespace Manifest

/-- The entries for objects of a kind. -/
def entriesOf (m : Manifest) : Kind → List Entry
  | .configMap => m.configMaps
  | .secret => m.secrets

/-- A manifest contributes what an entry of an object yields that an entry of the manifest
selects. -/
def Contributes (m : Manifest) (c : Contribution) : Prop :=
  ∃ e x qualifier key, (m.entriesOf c.place.kind)[c.place.index]? = some e ∧
    e.Selects o space s c.place.kind c.place.turn x qualifier ∧ c.place.name = x.key.name ∧
    x.Yields c.place.entry key c.value ∧ Qualified qualifier key c.key

/-- A contribution prevails if all others at its key stand before it. -/
def Prevails (m : Manifest) (c : Contribution) : Prop :=
  m.Contributes o space s c ∧ ∀ d, m.Contributes o space s d → d.key = c.key →
    d = c ∨ compare d.place c.place = .lt

end Manifest

end Manifest

/-! ### What rules pick -/

/-- The indices of a list ascend. -/
theorem pairwise_zipIdx {α : Type} (l : List α) : l.zipIdx.Pairwise fun a b => a.2 < b.2 := by
  rw [← List.pairwise_map, List.zipIdx_map_snd]
  exact List.pairwise_lt_range' 1

/-- The objects of a scope that carry labels are in the order of their names. -/
theorem Store.pairwise_select {s : Store} (hs : s.Keyed) (scope : Scope) (labels : Labels) :
    (s.select scope labels).Pairwise fun x y => x.key.name < y.key.name := by
  have hvalues : s.objects.values.Pairwise fun x y => compare x.key y.key = .lt := by
    rw [SortedMap.values, List.pairwise_map]
    refine s.objects.ascending.imp_of_mem fun {a b} ha hb hlt => ?_
    rwa [hs (SortedMap.get?_eq_some_iff.mpr ha), hs (SortedMap.get?_eq_some_iff.mpr hb)]
  refine ((hvalues.filter _).filter _).imp_of_mem fun {x y} hx hy hlt => ?_
  -- within a scope only the names are left to differ
  have hscope : ∀ z ∈ s.select scope labels,
      z.key.kind = scope.kind ∧ z.key.space = scope.space := by
    intro z hz
    have hz' := (mem_objectsIn.mp (List.mem_filter.mp hz).1).2
    exact ⟨congrArg Scope.kind hz', congrArg Scope.space hz'⟩
  obtain ⟨hxk, hxs⟩ := hscope x hx
  obtain ⟨hyk, hys⟩ := hscope y hy
  have horder : ObjectKey.order x.key y.key = .lt := hlt
  have hname : compare x.key.name y.key.name = .lt := by
    simpa [ObjectKey.order, compareLex, compareOn, Ordering.then_eq_lt, hxs, hys, hxk, hyk] using
      horder
  exact compareOfLessAndEq_eq_lt.mp hname

/-- The findings of a rule in a store, each with its turn. -/
def Rule.picks (o : Options) (space : String) (s : Store) (r : Rule) : List (Nat × Finding) :=
  match r.selection with
  | .named name => (name :: o.variants name).zipIdx.filterMap fun p =>
      (s.objects.get? (r.keyIn space p.1)).map fun x => (p.2, ⟨x, r.qualifierFor o name⟩)
  | .labelled labels =>
      (s.select (r.scopeIn space) labels).map fun x => (0, ⟨x, r.qualifierFor o x.key.name⟩)

section Picks

variable {o : Options} {space : String} {s : Store} {r : Rule}

theorem findAll_cluster (qualifier : Option String) (names : List String) :
    findAll s.cluster r space qualifier names = .ok (names.filterMap fun name =>
      (s.objects.get? (r.keyIn space name)).map (⟨·, qualifier⟩)) := by
  induction names with
  | nil => rfl
  | cons name rest ih =>
    refine bind_eq_ok.mpr ⟨_, rfl, bind_eq_ok.mpr ⟨_, ih, ?_⟩⟩
    rw [List.filterMap_cons]
    cases s.objects.get? (r.keyIn space name) <;> rfl

/-- A rule finds what it picks. -/
theorem findBy_eq_ok (hs : s.Keyed) {fs : List Finding}
    (h : findBy s.cluster o space r = .ok fs) : fs = (r.picks o space s).map Prod.snd := by
  cases hsel : r.selection with
  | named name =>
    rw [findBy, hsel] at h
    obtain ⟨found, hfound, hrest⟩ := bind_eq_ok.mp h
    cases hfound
    have hall : fs = (name :: o.variants name).filterMap fun n =>
        (s.objects.get? (r.keyIn space n)).map (⟨·, r.qualifierFor o name⟩) := by
      split at hrest
      · cases hrest
      · obtain ⟨others, hothers, hpure⟩ := bind_eq_ok.mp hrest
        rw [findAll_cluster] at hothers
        cases hothers
        cases hpure
        rw [List.filterMap_cons]
        cases s.objects.get? (r.keyIn space name) <;> rfl
    have hnames := List.zipIdx_map_fst 0 (name :: o.variants name)
    rw [Rule.picks, hsel, List.map_filterMap, hall, ← hnames, List.filterMap_map, hnames]
    congr 1
    funext p
    rw [Option.map_map]
    rfl
  | labelled labels =>
    rw [findBy, hsel] at h
    obtain ⟨found, hfound, hrest⟩ := bind_eq_ok.mp h
    cases hfound
    have hsorted : sortByName (s.select (r.scopeIn space) labels) =
        s.select (r.scopeIn space) labels :=
      List.mergeSort_of_pairwise ((s.pairwise_select hs _ labels).imp fun hlt =>
        decide_eq_true (Std.le_of_lt hlt))
    split at hrest
    · cases hrest
    · cases hrest
      rw [hsorted, Rule.picks, hsel, List.map_map]
      rfl

/-- What is picked is in the store. -/
theorem get?_of_mem_picks (hs : s.Keyed) {p : Nat × Finding} (hp : p ∈ r.picks o space s) :
    s.objects.get? p.2.object.key = some p.2.object := by
  cases hsel : r.selection with
  | named name =>
    rw [Rule.picks, hsel] at hp
    obtain ⟨q, -, hq⟩ := List.mem_filterMap.mp hp
    obtain ⟨x, hx, rfl⟩ := Option.map_eq_some_iff.mp hq
    rw [hs hx, hx]
  | labelled labels =>
    rw [Rule.picks, hsel] at hp
    obtain ⟨x, hx, rfl⟩ := List.mem_map.mp hp
    exact ((Store.mem_objectsIn_iff hs).mp (List.mem_filter.mp hx).1).1

/-- What is picked is picked in order: in one turn after the other, or by name. -/
theorem pairwise_picks (hs : s.Keyed) (o : Options) (space : String) (r : Rule) :
    (r.picks o space s).Pairwise fun p q =>
      p.1 < q.1 ∨ p.1 = q.1 ∧ p.2.object.key.name < q.2.object.key.name := by
  cases hsel : r.selection with
  | named name =>
    rw [Rule.picks, hsel, List.pairwise_filterMap]
    refine (pairwise_zipIdx _).imp fun {a b} hlt p hp q hq => Or.inl ?_
    obtain ⟨_, -, rfl⟩ := Option.map_eq_some_iff.mp hp
    obtain ⟨_, -, rfl⟩ := Option.map_eq_some_iff.mp hq
    exact hlt
  | labelled labels =>
    rw [Rule.picks, hsel, List.pairwise_map]
    exact (s.pairwise_select hs _ labels).imp fun hlt => Or.inr ⟨rfl, hlt⟩

theorem findByAll_eq_ok (hs : s.Keyed) {rules : List Rule} {fs : List Finding}
    (h : findByAll s.cluster o space rules = .ok fs) :
    fs = rules.flatMap fun r => (r.picks o space s).map Prod.snd := by
  induction rules generalizing fs with
  | nil =>
    cases h
    rfl
  | cons r rest ih =>
    obtain ⟨found, hfound, hrest⟩ := bind_eq_ok.mp h
    obtain ⟨others, hothers, hpure⟩ := bind_eq_ok.mp hrest
    cases hpure
    rw [List.flatMap_cons, findBy_eq_ok hs hfound, ih hothers]

end Picks

/-! ### Contributions in order -/

/-- The contributions of a finding in a place. -/
def Finding.contributions (kind : Kind) (index turn : Nat) (f : Finding) : List Contribution :=
  f.object.contents.map fun c =>
    ⟨⟨kind, index, turn, f.object.key.name, c.1⟩, qualify f.qualifier c.2.1, c.2.2⟩

/-- The contributions of a rule that has an index. -/
def Rule.contributions (o : Options) (space : String) (s : Store) (r : Rule) (index : Nat) :
    List Contribution :=
  (r.picks o space s).flatMap fun p => p.2.contributions r.kind index p.1

/-- The contributions of rules for objects of one kind. -/
def contributions (o : Options) (space : String) (s : Store) (rules : List Rule) :
    List Contribution :=
  rules.zipIdx.flatMap fun p => p.1.contributions o space s p.2

/-- One contribution gives way to another: at the same key it stands before it. -/
def Contribution.GivesWay (c d : Contribution) : Prop :=
  c.key = d.key → compare c.place d.place = .lt

section Order

variable {o : Options} {space : String} {s : Store}

theorem pairwise_contributions_finding (kind : Kind) (index turn : Nat) (f : Finding) :
    (f.contributions kind index turn).Pairwise Contribution.GivesWay := by
  rw [Finding.contributions, List.pairwise_map]
  refine f.object.pairwise_contents.imp fun {a b} hlater hkey => ?_
  have hentry : a.1 < b.1 := compareOfLessAndEq_eq_lt.mp (hlater (qualify_inj hkey))
  exact Place.compare_eq_lt.mpr (Or.inr ⟨rfl, Or.inr ⟨rfl, Or.inr ⟨rfl, Or.inr ⟨rfl, hentry⟩⟩⟩⟩)

theorem place_of_mem_finding {kind : Kind} {index turn : Nat} {f : Finding} {c : Contribution}
    (hc : c ∈ f.contributions kind index turn) : c.place.kind = kind ∧ c.place.index = index ∧
      c.place.turn = turn ∧ c.place.name = f.object.key.name := by
  obtain ⟨_, -, rfl⟩ := List.mem_map.mp hc
  exact ⟨rfl, rfl, rfl, rfl⟩

theorem place_of_mem_rule {r : Rule} {index : Nat} {c : Contribution}
    (hc : c ∈ r.contributions o space s index) :
    c.place.kind = r.kind ∧ c.place.index = index := by
  obtain ⟨p, -, hp⟩ := List.mem_flatMap.mp hc
  obtain ⟨hkind, hindex, -, -⟩ := place_of_mem_finding hp
  exact ⟨hkind, hindex⟩

theorem pairwise_contributions_rule (hs : s.Keyed) (r : Rule) (index : Nat) :
    (r.contributions o space s index).Pairwise Contribution.GivesWay := by
  rw [Rule.contributions, List.pairwise_flatMap]
  refine ⟨fun p _ => pairwise_contributions_finding _ _ _ _, ?_⟩
  refine (pairwise_picks hs o space r).imp fun {p q} hlater c hc d hd _ => ?_
  obtain ⟨hck, hci, hct, hcn⟩ := place_of_mem_finding hc
  obtain ⟨hdk, hdi, hdt, hdn⟩ := place_of_mem_finding hd
  rw [Place.compare_eq_lt, hck, hci, hct, hcn, hdk, hdi, hdt, hdn]
  refine Or.inr ⟨rfl, Or.inr ⟨rfl, ?_⟩⟩
  exact hlater.imp_right fun ⟨hturn, hname⟩ => ⟨hturn, Or.inl hname⟩

theorem pairwise_contributions (hs : s.Keyed) {kind : Kind} {rules : List Rule}
    (hrules : ∀ r ∈ rules, r.kind = kind) :
    (contributions o space s rules).Pairwise Contribution.GivesWay := by
  rw [contributions, List.pairwise_flatMap]
  refine ⟨fun p _ => pairwise_contributions_rule hs _ _, ?_⟩
  refine (pairwise_zipIdx rules).imp_of_mem fun {p q} hp hq hlt c hc d hd _ => ?_
  obtain ⟨hck, hci⟩ := place_of_mem_rule hc
  obtain ⟨hdk, hdi⟩ := place_of_mem_rule hd
  have hkind : ∀ p ∈ rules.zipIdx, p.1.kind = kind := fun p hp =>
    hrules _ (List.fst_mem_of_mem_zipIdx hp)
  rw [Place.compare_eq_lt, hck, hci, hdk, hdi, hkind p hp, hkind q hq]
  exact Or.inr ⟨rfl, Or.inl hlt⟩

/-- The properties of what rules pick are those that they contribute. -/
theorem map_contributions (rules : List Rule) :
    (contributions o space s rules).map (fun c => (c.key, c.value)) =
      rules.flatMap fun r => (r.picks o space s).flatMap fun p => p.2.properties := by
  have hfst : ∀ f : Rule → List (String × String),
      rules.zipIdx.flatMap (fun p => f p.1) = rules.flatMap f := by
    intro f
    conv => rhs; rw [← List.zipIdx_map_fst 0 rules, List.flatMap_map]
  rw [contributions, List.map_flatMap, ← hfst]
  congr 1
  funext p
  rw [Rule.contributions, List.map_flatMap]
  congr 1
  funext q
  rw [Finding.contributions, List.map_map, Finding.properties]
  rfl

end Order

/-- Of contributions in order, the last one at a key is behind all others. -/
theorem get?_ofList_contributions {cs : List Contribution}
    (hcs : cs.Pairwise Contribution.GivesWay) {k v : String} :
    (SortedMap.ofList (cs.map fun c => (c.key, c.value))).get? k = some v ↔
      ∃ c ∈ cs, (∀ d ∈ cs, d.key = c.key → d = c ∨ compare d.place c.place = .lt) ∧
        c.key = k ∧ c.value = v :=
  SortedMap.get?_ofList_of_pairwise (fun c d : Contribution => compare c.place d.place = .lt)
    (fun c => c.place.irrefl) Std.TransCmp.lt_trans hcs

/-! ### From entries to rules -/

/-- What a rule has from its entry. -/
theorem Entry.rule_cases {kind : Kind} {e : Entry} {r : Rule} (h : e.rule kind = .ok r) :
    r.kind = kind ∧ r.space = e.space ∧ (∀ o name, r.qualifierFor o name = e.qualifierFor o name) ∧
      ((∃ name, e.name = some name ∧ e.labels = none ∧ r.selection = .named name) ∨
        ∃ labels, e.name = none ∧ e.labels = some labels ∧ r.selection = .labelled labels) := by
  obtain ⟨selection, hselection, hpure⟩ := bind_eq_ok.mp h
  cases hpure
  refine ⟨rfl, rfl, fun o name => ?_, ?_⟩
  · rw [Rule.qualifierFor, Entry.qualifierFor]
    cases e.qualifier with
    | none => simp
    | some q => by_cases hq : q = "" <;> simp [Option.filter, hq]
  · rw [Entry.selection] at hselection
    split at hselection
    case h_1 name hname hlabels =>
      split at hselection
      · cases hselection
      · cases hselection
        exact Or.inl ⟨name, hname, hlabels, rfl⟩
    case h_2 labels hname hlabels =>
      split at hselection
      · cases hselection
      · cases hselection
        exact Or.inr ⟨labels, hname, hlabels, rfl⟩
    case h_3 => cases hselection
    case h_4 => cases hselection

/-- The rule of an entry picks what the entry selects. -/
theorem mem_picks_iff {o : Options} {space : String} {s : Store} (hs : s.Keyed) {kind : Kind}
    {e : Entry} {r : Rule} (hr : e.rule kind = .ok r) {turn : Nat} {x : Object}
    {qualifier : Option String} : (turn, ⟨x, qualifier⟩) ∈ r.picks o space s ↔
      e.Selects o space s kind turn x qualifier := by
  obtain ⟨rfl, hspace, hqualifier, ⟨name, hname, hnone, hsel⟩ | ⟨labels, hnone, hlabels, hsel⟩⟩ :=
    Entry.rule_cases hr
  · rw [Rule.picks, hsel, List.mem_filterMap]
    constructor
    · rintro ⟨⟨variant, turn'⟩, hturn, hpick⟩
      obtain ⟨x', hx, heq⟩ := Option.map_eq_some_iff.mp hpick
      cases heq
      rw [hqualifier]
      rw [Rule.keyIn, Rule.spaceIn, hspace] at hx
      exact .named hname (List.mem_zipIdx_iff_getElem?.mp hturn) hx
    · intro hselects
      cases hselects with
      | named hname' hturn hx =>
        cases hname.symm.trans hname'
        refine ⟨(_, turn), List.mem_zipIdx_iff_getElem?.mpr hturn, ?_⟩
        rw [Rule.keyIn, Rule.spaceIn, hspace, hx, hqualifier]
        rfl
      | labelled hlabels => cases hnone.symm.trans hlabels
  · rw [Rule.picks, hsel, List.mem_map]
    constructor
    · rintro ⟨x', hx, heq⟩
      cases heq
      obtain ⟨hin, hcarries⟩ := List.mem_filter.mp hx
      obtain ⟨hget, hscope⟩ := (Store.mem_objectsIn_iff hs).mp hin
      rw [hqualifier]
      refine .labelled hlabels hget (congrArg Scope.kind hscope) ?_ hcarries
      rw [← hspace]
      exact congrArg Scope.space hscope
    · intro hselects
      cases hselects with
      | named hname => cases hnone.symm.trans hname
      | labelled hlabels' hget hkind hxspace hcarries =>
        cases hlabels.symm.trans hlabels'
        refine ⟨x, ?_, by rw [hqualifier]⟩
        refine List.mem_filter.mpr ⟨(Store.mem_objectsIn_iff hs).mpr ⟨hget, ?_⟩, hcarries⟩
        rw [Rule.scopeIn, Rule.spaceIn, hspace, ← hkind, ← hxspace]
        rfl

namespace Manifest

/-- The rules of entries are the rules of each, in the same order. -/
theorem map_rule_eq {kind : Kind} {index : Nat} {es : List Entry} {rs : List Rule}
    (h : rulesFrom kind index es = .ok rs) : es.map (Entry.rule kind) = rs.map .ok := by
  induction es generalizing index rs with
  | nil =>
    cases h
    rfl
  | cons e es ih =>
    obtain ⟨r, hfirst, hrest⟩ := bind_eq_ok.mp h
    obtain ⟨rest, hothers, hpure⟩ := bind_eq_ok.mp hrest
    cases hpure
    have hr : e.rule kind = .ok r := by
      cases hrule : e.rule kind <;> rw [hrule] at hfirst <;> cases hfirst
      rfl
    rw [List.map_cons, List.map_cons, hr, ih hothers]

/-- What rules contribute is what their entries do. -/
theorem mem_contributions_iff {o : Options} {space : String} {s : Store} (hs : s.Keyed)
    {kind : Kind} {es : List Entry} {rs : List Rule} (h : rulesFrom kind 0 es = .ok rs)
    {c : Contribution} : c ∈ contributions o space s rs ↔
      c.place.kind = kind ∧ ∃ e x qualifier key, es[c.place.index]? = some e ∧
        e.Selects o space s kind c.place.turn x qualifier ∧ c.place.name = x.key.name ∧
        x.Yields c.place.entry key c.value ∧ Qualified qualifier key c.key := by
  have hrules : ∀ i : Nat, es[i]?.map (Entry.rule kind) = rs[i]?.map .ok := by
    intro i
    rw [← List.getElem?_map, map_rule_eq h, List.getElem?_map]
  constructor
  · intro hc
    obtain ⟨⟨r, i⟩, hri, hcr⟩ := List.mem_flatMap.mp hc
    obtain ⟨⟨turn, x, qualifier⟩, hpick, hcf⟩ := List.mem_flatMap.mp hcr
    obtain ⟨⟨entry, key, value⟩, hcontent, rfl⟩ := List.mem_map.mp hcf
    have hi : es[i]?.map (Entry.rule kind) = some (.ok r) := by
      rw [hrules, List.mem_zipIdx_iff_getElem?.mp hri]
      rfl
    obtain ⟨e, he, hr⟩ := Option.map_eq_some_iff.mp hi
    exact ⟨(Entry.rule_cases hr).1, e, x, qualifier, key, he, (mem_picks_iff hs hr).mp hpick, rfl,
      Object.mem_contents_iff.mp hcontent, qualified_iff.mpr rfl⟩
  · obtain ⟨⟨kind', index, turn, name, entry⟩, key', value⟩ := c
    rintro ⟨rfl, e, x, qualifier, key, he, hselects, rfl, hyields, hkey⟩
    obtain rfl := qualified_iff.mp hkey
    have hi : rs[index]?.map .ok = some (e.rule kind') := by
      rw [← hrules]
      exact congrArg (Option.map (Entry.rule kind')) he
    obtain ⟨r, hindex, hr⟩ := Option.map_eq_some_iff.mp hi
    have hkind := (Entry.rule_cases hr.symm).1
    refine List.mem_flatMap.mpr ⟨(r, index), List.mem_zipIdx_iff_getElem?.mpr hindex, ?_⟩
    have hpick := (mem_picks_iff hs hr.symm).mpr hselects
    refine List.mem_flatMap.mpr ⟨(turn, ⟨x, qualifier⟩), hpick, ?_⟩
    refine List.mem_map.mpr ⟨(entry, key, value), Object.mem_contents_iff.mpr hyields, ?_⟩
    rw [hkind]

/-- What a manifest contributes, in order. -/
theorem exists_contributions {m : Manifest} {rules : List Rule} (h : m.rules = .ok rules)
    (o : Options) (space : String) {s : Store} (hs : s.Keyed) :
    ∃ cs : List Contribution, (∀ c, c ∈ cs ↔ m.Contributes o space s c) ∧
      cs.Pairwise Contribution.GivesWay ∧ cs.map (fun c => (c.key, c.value)) =
        rules.flatMap fun r => (r.picks o space s).flatMap fun p => p.2.properties := by
  obtain ⟨cs, hcs, hrest⟩ := bind_eq_ok.mp h
  obtain ⟨ss, hss, hpure⟩ := bind_eq_ok.mp hrest
  cases hpure
  have hkinds : ∀ {kind es rs}, rulesFrom kind 0 es = .ok rs → ∀ r ∈ rs, r.kind = kind := by
    intro kind es rs hrs r hr
    have hmem : Except.ok r ∈ es.map (Entry.rule kind) := by
      rw [map_rule_eq hrs]
      exact List.mem_map_of_mem hr
    obtain ⟨e, -, he⟩ := List.mem_map.mp hmem
    exact (Entry.rule_cases he).1
  refine ⟨contributions o space s cs ++ contributions o space s ss, ?_, ?_, ?_⟩
  · intro c
    rw [List.mem_append, mem_contributions_iff hs hcs, mem_contributions_iff hs hss, Contributes]
    cases c.place.kind <;> simp [entriesOf]
  · refine List.pairwise_append.mpr ⟨pairwise_contributions hs (hkinds hcs),
      pairwise_contributions hs (hkinds hss), ?_⟩
    -- config maps give way to secrets, wherever either stands in its list
    intro c hc d hd _
    have hck := ((mem_contributions_iff hs hcs).mp hc).1
    have hdk := ((mem_contributions_iff hs hss).mp hd).1
    exact Place.compare_eq_lt.mpr (Or.inl ⟨hck, hdk⟩)
  · rw [List.map_append, map_contributions, map_contributions, List.flatMap_append]

/-- **What prevails.** If the rules of a manifest resolve in a store and a snapshot comes of it,
then its keys are those at which something is contributed; it has the values that prevail; and where
a secret contributes, it is a secret that prevails. -/
theorem snapshot_iff_prevails {m : Manifest} {rules : List Rule} {o : Options} {space : String}
    {s : Store} {res : Resolution} {snap : Snapshot} (hs : s.Keyed) (hrules : m.rules = .ok rules)
    (hres : resolve s.cluster o space rules = .ok res) (hsnap : res.snapshot = .ok snap) :
    (∀ k, k ∈ snap.properties.keys ↔ ∃ c, m.Contributes o space s c ∧ c.key = k) ∧
    (∀ k v, snap.properties.get? k = some v ↔
      ∃ c, m.Prevails o space s c ∧ c.key = k ∧ c.value = v) ∧
    ∀ c d, m.Prevails o space s c → m.Contributes o space s d → d.key = c.key →
      d.place.kind = .secret → c.place.kind = .secret := by
  obtain ⟨cs, hmem, horder, hmap⟩ := exists_contributions hrules o space hs
  have hproperties : snap.properties = .ofList (cs.map fun c => (c.key, c.value)) := by
    obtain ⟨fs, hfs, hpure⟩ := bind_eq_ok.mp hres
    cases hpure
    obtain rfl := findByAll_eq_ok hs hfs
    have hheld : ∀ f ∈ rules.flatMap fun r => (r.picks o space s).map Prod.snd,
        s.objects.get? f.object.key = some f.object := by
      intro f hf
      obtain ⟨r, -, hfr⟩ := List.mem_flatMap.mp hf
      obtain ⟨p, hp, rfl⟩ := List.mem_map.mp hfr
      exact get?_of_mem_picks hs hp
    have hunanimous : Unanimous (rules.flatMap fun r => (r.picks o space s).map Prod.snd) := by
      intro f hf g hg hkey
      have hsame := hheld f hf
      rw [hkey, hheld g hg] at hsame
      exact (Option.some.inj hsame).symm
    rw [Resolution.properties_of_snapshot hunanimous hsnap, List.flatMap_assoc, hmap]
    simp only [List.flatMap_map]
  refine ⟨?_, ?_, ?_⟩
  · intro k
    rw [SortedMap.mem_keys, hproperties, SortedMap.contains_ofList, List.map_map, List.mem_map]
    exact exists_congr fun c => and_congr_left fun _ => hmem c
  · intro k v
    rw [hproperties, get?_ofList_contributions horder]
    simp only [hmem, Prevails, and_assoc]
  · intro c d hc hd hkey hsecret
    rcases hc.2 d hd hkey with rfl | hlt
    · exact hsecret
    · rcases Place.compare_eq_lt.mp hlt with ⟨hd', -⟩ | ⟨hsame, -⟩
      · rw [hsecret] at hd'
        cases hd'
      · rw [← hsame, hsecret]

/-- A config map and a secret of the same name, both qualified by it, each in its own way. -/
def layered : Manifest :=
  ⟨none, false, [], [⟨some "app", none, none, some "app", none⟩],
    [⟨some "app", none, some true, none, none⟩]⟩

/-- A store that has both. The config map has a document with two properties, and the secret has one
of them again. -/
def layeredStore : Store :=
  .after [.put ⟨.configMap, "ns", "app"⟩ ∅ (.ofList [("app.properties", "a=1\nb=5")]),
    .put ⟨.secret, "ns", "app"⟩ ∅ (.ofList [("a", "2")])]

/-- The value of the secret prevails, and the property that is in the document only stays. -/
theorem snapshot_iff_prevails_layered : ∃ rules res snap, layeredStore.Keyed ∧
    layered.rules = .ok rules ∧ resolve layeredStore.cluster .standard "ns" rules = .ok res ∧
    res.snapshot = .ok snap ∧
    snap.properties.get? "app.a" = some "2" ∧ snap.properties.get? "app.b" = some "5" ∧
    (∃ c, layered.Prevails .standard "ns" layeredStore c ∧ c.key = "app.a" ∧ c.value = "2") ∧
    ∃ c, layered.Prevails .standard "ns" layeredStore c ∧ c.key = "app.b" ∧ c.value = "5" := by
  have hs : layeredStore.Keyed := (Store.sound_after _).keyed
  have hrules : layered.rules = .ok [⟨.configMap, .named "app", none, some "app", none⟩,
      ⟨.secret, .named "app", some true, none, none⟩] := by
    have hblank : Text.isBlank "app" = false := by
      simp [Text.isBlank, Text.isWhiteSpace, Text.whiteSpace, Text.CodePoints.has]
    simp only [layered, Manifest.rules, rulesFrom, Entry.rule, Entry.selection, hblank]
    rfl
  have hres : resolve layeredStore.cluster .standard "ns"
      [⟨.configMap, .named "app", none, some "app", none⟩,
        ⟨.secret, .named "app", some true, none, none⟩] =
      .ok (.ofFindings [⟨⟨⟨.configMap, "ns", "app"⟩, ∅,
          .ofList [("app.properties", "a=1\nb=5")], "1"⟩, some "app"⟩,
        ⟨⟨⟨.secret, "ns", "app"⟩, ∅, .ofList [("a", "Mg==")], "2"⟩, some "app"⟩]) := rfl
  have hsnap : (Resolution.ofFindings [⟨⟨⟨.configMap, "ns", "app"⟩, ∅,
          .ofList [("app.properties", "a=1\nb=5")], "1"⟩, some "app"⟩,
        ⟨⟨⟨.secret, "ns", "app"⟩, ∅, .ofList [("a", "Mg==")], "2"⟩, some "app"⟩]).snapshot =
      .ok ⟨.ofList [("app.a", "2"), ("app.b", "5")],
        .ofList [(⟨.configMap, "ns", "app"⟩, "1"), (⟨.secret, "ns", "app"⟩, "2")]⟩ :=
    eq_ok_of_toOption (by decide +kernel)
  obtain ⟨-, hvalues, -⟩ := snapshot_iff_prevails hs hrules hres hsnap
  have ha : (SortedMap.ofList [("app.a", "2"), ("app.b", "5")]).get? "app.a" = some "2" := by decide
  have hb : (SortedMap.ofList [("app.a", "2"), ("app.b", "5")]).get? "app.b" = some "5" := by decide
  exact ⟨_, _, _, hs, hrules, hres, hsnap, ha, hb, (hvalues _ _).mp ha, (hvalues _ _).mp hb⟩

end Manifest

end LiveConfig
