import LiveConfig.Proofs.Merging

/-!
# All of a snapshot or nothing

Sources are merged one after the other into one snapshot, and the first entry that cannot be read
ends it. Nothing of that depends on where a list of sources is cut: the snapshot of the whole is the
snapshot of the rear put over that of the front, and it fails as the first part that fails. What is
left is a single source, whose entries are read in the order of their names.

## Main definitions

* `Object.Faulty`, `Object.FirstFault` — an entry cannot be read, and it is the first one
* `Object.Shows` — a source has a value at a key, which its last entry there gives
* `Snapshot.above` — a snapshot put over another one

## Main results

* `Object.entryProperties_eq_error_iff`, `Object.properties_eq_error_iff` — which failures there are
* `Snapshot.addLayers_eq` — merging into a snapshot is merging, put over that snapshot
* `Snapshot.build_append` — the snapshot of a list of sources in terms of its parts
* `Snapshot.build_whole` — all of that, and what comes of a single source
-/

namespace LiveConfig

/-! ### Entries that cannot be read -/

namespace Document

variable {format : Format} {text : String}

/-- Only documents of properties have faults of properties. -/
theorem expand_eq_properties_iff {f : Properties.Fault} :
    expand format text = .error (.properties f) ↔
      format = .properties ∧ Properties.read text.toList = .error f := by
  cases format with
  | properties => simp [expand, mapError_eq_error_iff]
  | yaml => simp [expand, mapError_eq_error_iff]

/-- Only documents of YAML have faults of YAML. -/
theorem expand_eq_yaml_iff {f : Yaml.Fault} :
    expand format text = .error (.yaml f) ↔
      format = .yaml ∧ Yaml.read text.toList = .error f := by
  cases format with
  | properties => simp [expand, mapError_eq_error_iff]
  | yaml => simp [expand, mapError_eq_error_iff]

end Document

namespace Object

/-- What is stored under an entry cannot be read, and why. -/
inductive Faulty (x : Object) (entry stored : String) : Failure → Prop
  /-- The value of a secret is not the encoded text it should be. -/
  | undecodable {reason : String} (hsecret : x.key.kind = .secret)
      (hvalue : decodeSecret stored = .error reason) :
      Faulty x entry stored (.undecodable x.key entry reason)
  /-- The text is not a document of properties. -/
  | properties {text : String} {f : Properties.Fault} (htext : x.entryText entry stored = .ok text)
      (hformat : Document.Announces entry .properties)
      (hdocument : Properties.read text.toList = .error f) :
      Faulty x entry stored (.malformed x.key entry (some f.message))
  /-- The text is not a document of YAML. -/
  | yaml {text : String} {f : Yaml.Fault} (htext : x.entryText entry stored = .ok text)
      (hformat : Document.Announces entry .yaml)
      (hdocument : Yaml.read text.toList = .error f) :
      Faulty x entry stored (.malformed x.key entry none)

/-- A failure is that of the first entry that cannot be read. -/
def FirstFault (x : Object) (f : Failure) : Prop :=
  ∃ entry stored, x.data.get? entry = some stored ∧ x.Faulty entry stored f ∧
    ∀ entry' stored' g, x.data.get? entry' = some stored' → x.Faulty entry' stored' g →
      ¬ entry' < entry

/-- Under a qualifier an object has a value at a key: an entry yields it, and all else that is
yielded there comes from earlier entries. -/
def Shows (x : Object) (qualifier : Option String) (k v : String) : Prop :=
  ∃ entry key, x.Yields entry key v ∧ Qualified qualifier key k ∧
    ∀ entry' key' v', x.Yields entry' key' v' → Qualified qualifier key' k →
      entry' = entry ∧ key' = key ∧ v' = v ∨ entry' < entry

variable {x : Object}

theorem entryText_eq_error_iff {entry stored : String} {f : Failure} :
    x.entryText entry stored = .error f ↔ x.key.kind = .secret ∧
      ∃ reason, decodeSecret stored = .error reason ∧ .undecodable x.key entry reason = f := by
  rw [entryText]
  cases x.key.kind with
  | configMap => simp
  | secret => simp [mapError_eq_error_iff]

/-- **Which entries cannot be read, and why.** -/
theorem entryProperties_eq_error_iff {entry stored : String} {f : Failure} :
    x.entryProperties entry stored = .error f ↔ x.Faulty entry stored f := by
  rw [entryProperties, bind_eq_error]
  constructor
  · rintro (htext | ⟨text, htext, hdocument⟩)
    · obtain ⟨hsecret, reason, hvalue, rfl⟩ := entryText_eq_error_iff.mp htext
      exact .undecodable hsecret hvalue
    · split at hdocument
      case h_1 => cases hdocument
      case h_2 format hformat =>
        split at hdocument
        case h_1 => cases hdocument
        case h_2 hexpand =>
          obtain ⟨rfl, hread⟩ := Document.expand_eq_properties_iff.mp hexpand
          cases hdocument
          exact .properties htext (Document.Format.ofName?_eq_some_iff.mp hformat) hread
        case h_3 hexpand =>
          obtain ⟨rfl, hread⟩ := Document.expand_eq_yaml_iff.mp hexpand
          cases hdocument
          exact .yaml htext (Document.Format.ofName?_eq_some_iff.mp hformat) hread
  · rintro (⟨hsecret, hvalue⟩ | ⟨htext, hformat, hread⟩ | ⟨htext, hformat, hread⟩)
    · exact Or.inl (entryText_eq_error_iff.mpr ⟨hsecret, _, hvalue, rfl⟩)
    · exact Or.inr ⟨_, htext, by
        rw [Document.Format.ofName?_eq_some_iff.mpr hformat]
        simp only [Document.expand_eq_properties_iff.mpr ⟨rfl, hread⟩]⟩
    · exact Or.inr ⟨_, htext, by
        rw [Document.Format.ofName?_eq_some_iff.mpr hformat]
        simp only [Document.expand_eq_yaml_iff.mpr ⟨rfl, hread⟩]⟩

/-- The first entry of a list that cannot be read decides. -/
theorem propertiesOf_eq_error_iff {es : List (String × String)} {f : Failure} :
    x.propertiesOf es = .error f ↔ ∃ front e rear, es = front ++ e :: rear ∧
      x.Faulty e.1 e.2 f ∧ ∀ d ∈ front, ∀ g, ¬ x.Faulty d.1 d.2 g := by
  induction es with
  | nil => simp [propertiesOf]
  | cons e es ih =>
    obtain ⟨entry, stored⟩ := e
    rw [propertiesOf, bind_eq_error, entryProperties_eq_error_iff]
    constructor
    · rintro (hfaulty | ⟨ps, hps, hrest⟩)
      · exact ⟨[], (entry, stored), es, rfl, hfaulty, nofun⟩
      · have hreadable : ∀ g, ¬ x.Faulty entry stored g := by
          intro g hg
          rw [entryProperties_eq_error_iff.mpr hg] at hps
          cases hps
        rcases bind_eq_error.mp hrest with hothers | ⟨_, -, hpure⟩
        · obtain ⟨front, e, rear, rfl, hfaulty, hfront⟩ := ih.mp hothers
          refine ⟨(entry, stored) :: front, e, rear, rfl, hfaulty, ?_⟩
          exact List.forall_mem_cons.mpr ⟨hreadable, hfront⟩
        · cases hpure
    · rintro ⟨front, e, rear, heq, hfaulty, hfront⟩
      rcases List.cons_eq_append_iff.mp heq with ⟨rfl, hhead⟩ | ⟨front', rfl, htail⟩
      · cases hhead
        exact Or.inl hfaulty
      · obtain ⟨hreadable, hfront'⟩ := List.forall_mem_cons.mp hfront
        cases hps : x.entryProperties entry stored with
        | error g => exact absurd (entryProperties_eq_error_iff.mp hps) (hreadable g)
        | ok ps =>
          have hothers := ih.mpr ⟨front', e, rear, htail, hfaulty, hfront'⟩
          exact Or.inr ⟨ps, rfl, bind_eq_error.mpr (Or.inl hothers)⟩

/-- **An object cannot be read** because of the first of its entries that cannot. -/
theorem properties_eq_error_iff {f : Failure} : x.properties = .error f ↔ x.FirstFault f := by
  have hlt : ∀ {a b : String}, compare a b = .lt → a < b := compareOfLessAndEq_eq_lt.mp
  rw [properties, propertiesOf_eq_error_iff]
  constructor
  · rintro ⟨front, ⟨entry, stored⟩, rear, heq, hfaulty, hfront⟩
    have hascending := x.data.ascending
    rw [heq] at hascending
    have hrear := (List.pairwise_cons.mp (List.pairwise_append.mp hascending).2.1).1
    refine ⟨entry, stored, SortedMap.get?_eq_some_iff.mpr ?_, hfaulty, ?_⟩
    · rw [heq]
      exact List.mem_append_right _ List.mem_cons_self
    · intro entry' stored' g hget hother
      have hmem := SortedMap.get?_eq_some_iff.mp hget
      rw [heq] at hmem
      rcases List.mem_append.mp hmem with hmem | hmem
      · exact absurd hother (hfront _ hmem g)
      · rcases List.mem_cons.mp hmem with hsame | hmem
        · cases hsame
          exact String.lt_irrefl entry
        · exact String.lt_asymm (hlt (hrear _ hmem))
  · rintro ⟨entry, stored, hget, hfaulty, hleast⟩
    obtain ⟨front, rear, heq⟩ := List.append_of_mem (SortedMap.get?_eq_some_iff.mp hget)
    have hascending := x.data.ascending
    rw [heq] at hascending
    have hfront := (List.pairwise_append.mp hascending).2.2
    refine ⟨front, (entry, stored), rear, heq, hfaulty, fun d hd g hg => ?_⟩
    refine hleast d.1 d.2 g (SortedMap.get?_eq_some_iff.mpr ?_) hg
      (hlt (hfront d hd _ List.mem_cons_self))
    rw [heq]
    exact List.mem_append_left _ hd

end Object

/-! ### Snapshots over one another -/

namespace Snapshot

/-- A snapshot put over another one, whose values count where it has none. -/
def above (t s : Snapshot) : Snapshot :=
  ⟨s.properties.override t.properties, s.versions.override t.versions⟩

theorem above_above (s t u : Snapshot) : u.above (t.above s) = (u.above t).above s := by
  simp only [above, SortedMap.override_assoc]

variable {fetch : ObjectKey → Option Object}

/-- What a source puts over a snapshot is its own snapshot. -/
theorem addLayer_eq (s : Snapshot) (l : Layer) :
    s.addLayer fetch l = (addLayer fetch ∅ l).map (·.above s) := by
  rw [addLayer, addLayer]
  cases fetch l.key with
  | none => rfl
  | some x =>
    simp only
    cases x.properties with
    | error f => rfl
    | ok ps =>
      have hversion : ∀ vs : SortedMap ObjectKey String,
          vs.insert x.key x.version = vs.override (.ofList [(x.key, x.version)]) :=
        fun vs => vs.insertMany_eq_override [(x.key, x.version)]
      simp only [bind, Except.bind, pure, Except.pure, Except.map, above]
      rw [SortedMap.insertMany_eq_override, hversion]
      rfl

/-- **Merging into a snapshot** is merging, put over that snapshot. -/
theorem addLayers_eq (s : Snapshot) (ls : List Layer) :
    s.addLayers fetch ls = (build fetch ls).map (·.above s) := by
  induction ls generalizing s with
  | nil => rfl
  | cons l ls ih =>
    rw [build, addLayers, addLayers, addLayer_eq s]
    cases addLayer fetch ∅ l with
    | error f => rfl
    | ok t =>
      change (t.above s).addLayers fetch ls = (t.addLayers fetch ls).map (·.above s)
      rw [ih, ih]
      cases build fetch ls with
      | error f => rfl
      | ok u => exact congrArg Except.ok (above_above s t u)

theorem addLayers_append (s : Snapshot) (xs ys : List Layer) :
    s.addLayers fetch (xs ++ ys) = s.addLayers fetch xs >>= (·.addLayers fetch ys) := by
  induction xs generalizing s with
  | nil => rfl
  | cons l xs ih =>
    rw [List.cons_append, addLayers, addLayers]
    cases s.addLayer fetch l with
    | error f => rfl
    | ok t => exact ih t

/-- **The snapshot of a list of sources** in terms of its parts. -/
theorem build_append (xs ys : List Layer) :
    build fetch (xs ++ ys) = build fetch xs >>= fun a => (build fetch ys).map (·.above a) := by
  rw [build, addLayers_append]
  simp only [addLayers_eq _ ys]
  rfl

/-! ### A single source -/

theorem build_singleton (l : Layer) : build fetch [l] = addLayer fetch ∅ l := by
  rw [build, addLayers]
  cases addLayer fetch ∅ l <;> rfl

variable {l : Layer} {x : Object}

theorem build_singleton_of_absent (h : fetch l.key = none) :
    build fetch [l] = .error (.absent l.key.kind l.key.space l.key.name) := by
  rw [build_singleton, addLayer, h]

theorem build_singleton_eq_error_iff (h : fetch l.key = some x) {f : Failure} :
    build fetch [l] = .error f ↔ x.FirstFault f := by
  rw [build_singleton, addLayer, h]
  simp only
  rw [bind_eq_error, Object.properties_eq_error_iff]
  refine or_iff_left ?_
  rintro ⟨ps, -, hpure⟩
  cases hpure

theorem build_singleton_eq_ok_iff (h : fetch l.key = some x) {s : Snapshot} :
    build fetch [l] = .ok s ↔ (∀ f, ¬ x.FirstFault f) ∧
      s = ⟨.ofList (Finding.properties ⟨x, l.qualifier⟩), .ofList [(x.key, x.version)]⟩ := by
  have hmap : ∀ {ps}, x.properties = .ok ps → ps.map (fun e => (qualify l.qualifier e.1, e.2)) =
      Finding.properties ⟨x, l.qualifier⟩ := by
    intro ps hps
    rw [Object.properties_eq_ok hps, List.map_map]
    rfl
  rw [build_singleton, addLayer, h]
  simp only
  rw [bind_eq_ok]
  constructor
  · rintro ⟨ps, hps, hpure⟩
    cases hpure
    refine ⟨fun f hf => ?_, ?_⟩
    · rw [Object.properties_eq_error_iff.mpr hf] at hps
      cases hps
    · rw [hmap hps]
      rfl
  · rintro ⟨hnone, rfl⟩
    cases hps : x.properties with
    | error f => exact absurd (Object.properties_eq_error_iff.mp hps) (hnone f)
    | ok ps =>
      refine ⟨ps, rfl, ?_⟩
      rw [hmap hps]
      rfl

/-- A source has precisely the keys that its object yields, under the qualifier. -/
theorem contains_properties_iff {qualifier : Option String} {k : String} :
    (SortedMap.ofList (Finding.properties ⟨x, qualifier⟩)).contains k = true ↔
      ∃ entry key v, x.Yields entry key v ∧ Qualified qualifier key k := by
  simp only [qualified_iff]
  rw [SortedMap.contains_ofList, Finding.properties, List.map_map, List.mem_map]
  constructor
  · rintro ⟨⟨entry, key, v⟩, hmem, rfl⟩
    exact ⟨entry, key, v, Object.mem_contents_iff.mp hmem, rfl⟩
  · rintro ⟨entry, key, v, hyields, rfl⟩
    exact ⟨(entry, key, v), Object.mem_contents_iff.mpr hyields, rfl⟩

/-- What a source has at a key is what its object shows there. -/
theorem get?_properties_iff {qualifier : Option String} {k v : String} :
    (SortedMap.ofList (Finding.properties ⟨x, qualifier⟩)).get? k = some v ↔
      x.Shows qualifier k v := by
  have horder : x.contents.Pairwise fun a b =>
      qualify qualifier a.2.1 = qualify qualifier b.2.1 → a.1 < b.1 :=
    x.pairwise_contents.imp fun hlater hkey =>
      compareOfLessAndEq_eq_lt.mp (hlater (qualify_inj hkey))
  simp only [Object.Shows, qualified_iff]
  rw [Finding.properties, SortedMap.get?_ofList_of_pairwise (fun c d => c.1 < d.1)
    (fun c => String.lt_irrefl c.1) String.lt_trans horder]
  constructor
  · rintro ⟨⟨entry, key, value⟩, hmem, hlast, rfl, rfl⟩
    refine ⟨entry, key, Object.mem_contents_iff.mp hmem, rfl, fun entry' key' v' hyields hkey => ?_⟩
    rcases hlast (entry', key', v') (Object.mem_contents_iff.mpr hyields) hkey with hsame | hlt
    · cases hsame
      exact Or.inl ⟨rfl, rfl, rfl⟩
    · exact Or.inr hlt
  · rintro ⟨entry, key, hyields, rfl, hlast⟩
    refine ⟨(entry, key, v), Object.mem_contents_iff.mpr hyields, ?_, rfl, rfl⟩
    rintro ⟨entry', key', v'⟩ hmem hkey
    rcases hlast entry' key' v' (Object.mem_contents_iff.mp hmem) hkey with ⟨rfl, rfl, rfl⟩ | hlt
    · exact Or.inl rfl
    · exact Or.inr hlt

/-- A snapshot has precisely the keys that the objects of its sources yield, under qualifiers. -/
theorem contains_build_iff {ls : List Layer} {s : Snapshot} (h : build fetch ls = .ok s)
    {k : String} : s.properties.contains k = true ↔ ∃ l ∈ ls, ∃ x, fetch l.key = some x ∧
      ∃ entry key v, x.Yields entry key v ∧ Qualified l.qualifier key k := by
  induction ls generalizing s with
  | nil =>
    cases h
    constructor
    · intro h
      cases h
    · rintro ⟨l, hl, -⟩
      cases hl
  | cons l ls ih =>
    obtain ⟨a, ha, hrest⟩ := bind_eq_ok.mp ((build_append [l] ls).symm.trans h)
    cases hb : build fetch ls with
    | error f =>
      rw [hb] at hrest
      cases hrest
    | ok b =>
      rw [hb] at hrest
      cases hrest
      have habove : (b.above a).properties.contains k =
          (b.properties.contains k || a.properties.contains k) := by
        rw [SortedMap.contains, above, SortedMap.get?_override, Option.isSome_or]
        rfl
      rw [habove, Bool.or_eq_true, ih hb, or_comm]
      simp only [List.mem_cons, exists_eq_or_imp]
      refine or_congr_left ?_
      cases hx : fetch l.key with
      | none =>
        rw [build_singleton_of_absent hx] at ha
        cases ha
      | some x =>
        obtain ⟨-, rfl⟩ := (build_singleton_eq_ok_iff hx).mp ha
        rw [contains_properties_iff]
        constructor
        · exact fun h => ⟨x, rfl, h⟩
        · rintro ⟨y, hsame, h⟩
          cases hsame
          exact h

/-- If every source has an object then none is missed. -/
theorem build_ne_absent {ls : List Layer} (h : ∀ l ∈ ls, (fetch l.key).isSome = true) (kind : Kind)
    (space name : String) : build fetch ls ≠ .error (.absent kind space name) := by
  induction ls with
  | nil => exact nofun
  | cons l ls ih =>
    obtain ⟨hl, hls⟩ := List.forall_mem_cons.mp h
    obtain ⟨x, hx⟩ := Option.isSome_iff_exists.mp hl
    intro herror
    rcases bind_eq_error.mp ((build_append [l] ls).symm.trans herror) with hfirst | ⟨a, -, hrest⟩
    · obtain ⟨_, _, -, hfaulty, -⟩ := (build_singleton_eq_error_iff hx).mp hfirst
      cases hfaulty
    · cases hbuild : build fetch ls with
      | ok b =>
        rw [hbuild] at hrest
        cases hrest
      | error f =>
        rw [hbuild] at hrest
        cases hrest
        exact ih hls hbuild

/-! ### The whole -/

/-- **All or nothing.** Sources one behind the other have the snapshot of the rear over that of the
front, properties and versions alike, or the first failure. A single source is absent if there is no
object for it. Otherwise it fails with the failure of its first entry that cannot be read, entries
taken in the order of their names; and if all of them can be read, its snapshot has the version of
the object, precisely the keys that the entries yield, under the qualifier, and at each key what the
last of them gives. -/
theorem build_whole (fetch : ObjectKey → Option Object) :
    (∀ xs ys a b, build fetch xs = .ok a → build fetch ys = .ok b →
      ∃ s, build fetch (xs ++ ys) = .ok s ∧
        (∀ k, s.properties.get? k = (b.properties.get? k).or (a.properties.get? k)) ∧
        ∀ k, s.versions.get? k = (b.versions.get? k).or (a.versions.get? k)) ∧
    (∀ xs ys f, build fetch xs = .error f → build fetch (xs ++ ys) = .error f) ∧
    (∀ xs ys a f, build fetch xs = .ok a → build fetch ys = .error f →
      build fetch (xs ++ ys) = .error f) ∧
    ∀ l : Layer,
      (fetch l.key = none →
        build fetch [l] = .error (.absent l.key.kind l.key.space l.key.name)) ∧
      ∀ x, fetch l.key = some x →
        (∀ f, build fetch [l] = .error f ↔ x.FirstFault f) ∧
        ((∀ f, ¬ x.FirstFault f) → ∃ s, build fetch [l] = .ok s ∧
          s.versions = .ofList [(x.key, x.version)] ∧
          (∀ k, s.properties.contains k = true ↔
            ∃ entry key v, x.Yields entry key v ∧ Qualified l.qualifier key k) ∧
          ∀ k v, s.properties.get? k = some v ↔ x.Shows l.qualifier k v) := by
  refine ⟨?_, ?_, ?_, fun l => ⟨build_singleton_of_absent, fun x hx => ⟨?_, ?_⟩⟩⟩
  · intro xs ys a b ha hb
    refine ⟨b.above a, ?_, SortedMap.get?_override _ _, SortedMap.get?_override _ _⟩
    rw [build_append, ha, hb]
    rfl
  · intro xs ys f hxs
    rw [build_append, hxs]
    rfl
  · intro xs ys a f hxs hys
    rw [build_append, hxs, hys]
    rfl
  · intro f
    exact build_singleton_eq_error_iff hx
  · intro hnone
    exact ⟨_, (build_singleton_eq_ok_iff hx).mpr ⟨hnone, rfl⟩, rfl,
      fun _ => contains_properties_iff, fun _ _ => get?_properties_iff⟩

/-- A config map with a document that replaces its `b`, another one that has a `b` again, and a
secret that is not Base64. -/
def stacked : SortedMap ObjectKey Object := .ofList
  [(⟨.configMap, "ns", "base"⟩, ⟨⟨.configMap, "ns", "base"⟩, ∅,
      .ofList [("a", "1"), ("b", "2"), ("c.properties", "b=4")], "1"⟩),
    (⟨.configMap, "ns", "top"⟩, ⟨⟨.configMap, "ns", "top"⟩, ∅, .ofList [("b", "3")], "2"⟩),
    (⟨.secret, "ns", "odd"⟩, ⟨⟨.secret, "ns", "odd"⟩, ∅, .ofList [("k", "%")], "3"⟩)]

/-- They are merged under a qualifier, put over one another, and looked for in vain. -/
theorem build_whole_stacked :
    let base : Layer := ⟨⟨.configMap, "ns", "base"⟩, some "app"⟩
    let top : Layer := ⟨⟨.configMap, "ns", "top"⟩, some "app"⟩
    let odd : Layer := ⟨⟨.secret, "ns", "odd"⟩, none⟩
    let gone : Layer := ⟨⟨.secret, "ns", "gone"⟩, none⟩
    let f : Failure := .undecodable ⟨.secret, "ns", "odd"⟩ "k" "Invalid symbol 37, offset 0."
    (∃ a b s, build stacked.get? [base] = .ok a ∧ build stacked.get? [top] = .ok b ∧
      build stacked.get? [base, top] = .ok s ∧
      s.properties.get? "app.b" = (b.properties.get? "app.b").or (a.properties.get? "app.b")) ∧
    build stacked.get? [odd] = .error f ∧ build stacked.get? [odd, top] = .error f ∧
    build stacked.get? [base, odd] = .error f ∧
    stacked.get? gone.key = none ∧
    build stacked.get? [gone] = .error (.absent .secret "ns" "gone") ∧
    (∃ x, stacked.get? odd.key = some x ∧ x.FirstFault f) ∧
    ∃ x s, stacked.get? base.key = some x ∧ (∀ f, ¬ x.FirstFault f) ∧
      build stacked.get? [base] = .ok s ∧
      s.properties.get? "app.b" = some "4" ∧ x.Shows (some "app") "app.b" "4" := by
  obtain ⟨hoverlay, hfront, hrear, hsingle⟩ := build_whole stacked.get?
  have hbase : build stacked.get? [⟨⟨.configMap, "ns", "base"⟩, some "app"⟩] =
      .ok ⟨.ofList [("app.a", "1"), ("app.b", "4")],
        .ofList [(⟨.configMap, "ns", "base"⟩, "1")]⟩ :=
    eq_ok_of_toOption (by decide +kernel)
  have htop : build stacked.get? [⟨⟨.configMap, "ns", "top"⟩, some "app"⟩] =
    .ok ⟨.ofList [("app.b", "3")], .ofList [(⟨.configMap, "ns", "top"⟩, "2")]⟩ := rfl
  have hodd : build stacked.get? [⟨⟨.secret, "ns", "odd"⟩, none⟩] =
    .error (.undecodable ⟨.secret, "ns", "odd"⟩ "k" "Invalid symbol 37, offset 0.") := rfl
  intro base top odd gone f
  have hgone : stacked.get? gone.key = none := by decide
  have hx : stacked.get? base.key = some ⟨⟨.configMap, "ns", "base"⟩, ∅,
    .ofList [("a", "1"), ("b", "2"), ("c.properties", "b=4")], "1"⟩ := by decide
  have hy : stacked.get? odd.key = some
    ⟨⟨.secret, "ns", "odd"⟩, ∅, .ofList [("k", "%")], "3"⟩ := by decide
  have hnone : ∀ g, ¬ Object.FirstFault ⟨⟨.configMap, "ns", "base"⟩, ∅,
      .ofList [("a", "1"), ("b", "2"), ("c.properties", "b=4")], "1"⟩ g := by
    intro g hg
    have herror := (((hsingle base).2 _ hx).1 g).mpr hg
    rw [hbase] at herror
    cases herror
  obtain ⟨s, hs, hproperties, -⟩ := hoverlay [base] [top] _ _ hbase htop
  obtain ⟨t, ht, -, -, hshows⟩ := ((hsingle base).2 _ hx).2 hnone
  have hvalue : t.properties.get? "app.b" = some "4" := by
    rw [← Except.ok.inj (hbase.symm.trans ht)]
    decide
  exact ⟨⟨_, _, s, hbase, htop, hs, hproperties "app.b"⟩, hodd, hfront [odd] [top] f hodd,
    hrear [base] [odd] _ f hbase hodd, hgone, (hsingle gone).1 hgone,
    ⟨_, hy, (((hsingle odd).2 _ hy).1 f).mp hodd⟩, _, t, hx, hnone, ht, hvalue,
    (hshows "app.b" "4").mp hvalue⟩

end Snapshot

end LiveConfig
