import LiveConfig.Proofs.Answers

/-!
# What a snapshot holds

A snapshot is built from findings, one after the other: from each the entries of its object, from
each entry the properties that it yields, and every property is put under the finding's qualifier.
If a snapshot comes of it then every entry could be read, and the properties are simply all of
these, of which the last one at a key counts.

## Main definitions

* `Document.Announces` — the format that the ending of a name stands for
* `Qualified` — a key put under a qualifier
* `Object.Gives`, `Object.Yields` — what an entry yields: its text, or the properties of the
  document that it is
* `Object.contents`, `Finding.properties` — all of that in order, and put under a qualifier

## Main results

* `Document.Format.ofName?_eq_some_iff` — a document is read in the format that its name announces
* `Object.mem_contents_iff` — the contents of an object that can be read are what it yields
* `Object.pairwise_contents` — a property that an object yields twice comes from a later entry
* `Resolution.properties_of_snapshot` — the properties of a snapshot
-/

namespace LiveConfig

/-! ### Names and keys -/

namespace Document

/-- By its ending a name announces a document of a format. -/
inductive Announces : String → Format → Prop
  | properties (front : String) : Announces (front ++ ".properties") .properties
  | yaml (front : String) : Announces (front ++ ".yaml") .yaml
  | yml (front : String) : Announces (front ++ ".yml") .yaml

theorem endsIn_iff {ending name : String} :
    endsIn ending name = true ↔ ∃ front, front ++ ending = name := by
  rw [endsIn, List.isSuffixOf_iff_suffix]
  constructor
  · rintro ⟨front, hfront⟩
    refine ⟨String.ofList front, String.toList_inj.mp ?_⟩
    rw [String.toList_append, String.toList_ofList, hfront]
  · rintro ⟨front, rfl⟩
    rw [String.toList_append]
    exact List.suffix_append _ _

/-- A name that has one ending does not have a longer one that itself ends otherwise. -/
theorem endsIn_eq_false {short long name : String} (hshort : endsIn short name = true)
    (hle : short.toList.length ≤ long.toList.length) (hapart : endsIn short long = false) :
    endsIn long name = false := by
  rw [Bool.eq_false_iff]
  intro hlong
  rw [endsIn, List.isSuffixOf_iff_suffix] at hshort hlong
  have hsuffix := List.suffix_of_suffix_length_le hshort hlong hle
  rw [endsIn, List.isSuffixOf_iff_suffix.mpr hsuffix] at hapart
  cases hapart

/-- **A document is read in the format that its name announces.** -/
theorem Format.ofName?_eq_some_iff {name : String} {format : Format} :
    ofName? name = some format ↔ Announces name format := by
  constructor
  · intro h
    rw [ofName?] at h
    split at h
    · rename_i hproperties
      cases h
      obtain ⟨front, rfl⟩ := endsIn_iff.mp hproperties
      exact .properties front
    · split at h
      · rename_i hyaml
        cases h
        rcases (Bool.or_eq_true _ _).mp hyaml with hyaml | hyml
        · obtain ⟨front, rfl⟩ := endsIn_iff.mp hyaml
          exact .yaml front
        · obtain ⟨front, rfl⟩ := endsIn_iff.mp hyml
          exact .yml front
      · cases h
  · intro h
    rw [ofName?]
    cases h with
    | properties front => rw [if_pos (endsIn_iff.mpr ⟨front, rfl⟩)]
    | yaml front =>
      have hyaml : endsIn ".yaml" (front ++ ".yaml") = true := endsIn_iff.mpr ⟨front, rfl⟩
      rw [endsIn_eq_false hyaml (by decide) (by decide), hyaml]
      rfl
    | yml front =>
      have hyml : endsIn ".yml" (front ++ ".yml") = true := endsIn_iff.mpr ⟨front, rfl⟩
      rw [endsIn_eq_false hyml (by decide) (by decide), hyml, Bool.or_true]
      rfl

theorem Format.ofName?_eq_none_iff {name : String} :
    ofName? name = none ↔ ∀ format, ¬ Announces name format := by
  rw [Option.eq_none_iff_forall_ne_some]
  exact forall_congr' fun _ => not_congr ofName?_eq_some_iff

end Document

/-- A key is put under a qualifier, with a point between them; without one it stays as it is. -/
inductive Qualified : Option String → String → String → Prop
  | plain (key : String) : Qualified none key key
  | under (q key : String) : Qualified (some q) key (q ++ "." ++ key)

theorem qualified_iff {qualifier : Option String} {key k : String} :
    Qualified qualifier key k ↔ qualify qualifier key = k := by
  constructor
  · rintro (_ | _) <;> rfl
  · rintro rfl
    cases qualifier with
    | none => exact .plain key
    | some q => exact .under q key

/-! ### Objects -/

namespace Object

/-- What is stored under an entry gives a property: a property of the document that the name of the
entry announces, or if it announces none its text, under that name. -/
inductive Gives (x : Object) (entry stored : String) : String → String → Prop
  | text {text : String} (htext : x.entryText entry stored = .ok text)
      (hplain : ∀ format, ¬ Document.Announces entry format) : Gives x entry stored entry text
  | document {text key value : String} {format : Document.Format} {m : SortedMap String String}
      (htext : x.entryText entry stored = .ok text) (hformat : Document.Announces entry format)
      (hexpand : Document.expand format text = .ok m) (hvalue : m.get? key = some value) :
      Gives x entry stored key value

/-- An entry yields a property. -/
def Yields (x : Object) (entry key value : String) : Prop :=
  ∃ stored, x.data.get? entry = some stored ∧ x.Gives entry stored key value

/-- The properties of an entry, none if it cannot be read. -/
def readable (x : Object) (entry stored : String) : List (String × String) :=
  (x.entryProperties entry stored).toOption.getD []

/-- The properties of all entries, each with the name of the entry. -/
def contents (x : Object) : List (String × String × String) :=
  x.data.entries.flatMap fun e => (x.readable e.1 e.2).map (e.1, ·)

variable {x : Object}

theorem readable_of_error {entry stored : String} {f : Failure}
    (h : x.entryText entry stored = .error f) : x.readable entry stored = [] := by
  rw [readable, entryProperties, h]
  rfl

theorem readable_of_text {entry stored text : String} (h : x.entryText entry stored = .ok text) :
    x.readable entry stored = match Document.Format.ofName? entry with
      | none => [(entry, text)]
      | some format => match Document.expand format text with
        | .ok m => m.entries
        | .error _ => [] := by
  rw [readable, entryProperties, h]
  simp only [bind, Except.bind, pure, Except.pure]
  cases Document.Format.ofName? entry with
  | none => rfl
  | some format =>
    rcases hexpand : Document.expand format text with (f | f) | m <;> simp only [hexpand] <;> rfl

/-- An entry without a document gives its text. -/
theorem gives_iff_of_none {entry stored key value : String}
    (h : Document.Format.ofName? entry = none) : x.Gives entry stored key value ↔
      x.entryText entry stored = .ok value ∧ key = entry := by
  constructor
  · rintro (⟨htext, -⟩ | ⟨-, hformat, -, -⟩)
    · exact ⟨htext, rfl⟩
    · exact absurd hformat (Document.Format.ofName?_eq_none_iff.mp h _)
  · rintro ⟨htext, rfl⟩
    exact .text htext (Document.Format.ofName?_eq_none_iff.mp h)

/-- A document gives its properties. -/
theorem gives_iff_of_some {entry stored key value : String} {format : Document.Format}
    (h : Document.Format.ofName? entry = some format) : x.Gives entry stored key value ↔
      ∃ text m, x.entryText entry stored = .ok text ∧ Document.expand format text = .ok m ∧
        m.get? key = some value := by
  constructor
  · rintro (⟨-, hplain⟩ | ⟨htext, hformat, hexpand, hvalue⟩)
    · exact absurd (Document.Format.ofName?_eq_some_iff.mp h) (hplain format)
    · cases h.symm.trans (Document.Format.ofName?_eq_some_iff.mpr hformat)
      exact ⟨_, _, htext, hexpand, hvalue⟩
  · rintro ⟨text, m, htext, hexpand, hvalue⟩
    exact .document htext (Document.Format.ofName?_eq_some_iff.mp h) hexpand hvalue

/-- What is stored gives what can be read of it. -/
theorem mem_readable_iff {entry stored key value : String} :
    (key, value) ∈ x.readable entry stored ↔ x.Gives entry stored key value := by
  cases hformat : Document.Format.ofName? entry with
  | none =>
    rw [gives_iff_of_none hformat]
    cases htext : x.entryText entry stored with
    | error f => simp [readable_of_error htext]
    | ok text => simp [readable_of_text htext, hformat, and_comm, eq_comm]
  | some format =>
    rw [gives_iff_of_some hformat]
    cases htext : x.entryText entry stored with
    | error f => simp [readable_of_error htext]
    | ok text =>
      rw [readable_of_text htext, hformat]
      cases hexpand : Document.expand format text with
      | ok m => simp [hexpand, SortedMap.get?_eq_some_iff]
      | error e => simp [hexpand]

/-- What can be read of an entry has no key twice. -/
theorem pairwise_readable (x : Object) (entry stored : String) :
    (x.readable entry stored).Pairwise fun a b => a.1 ≠ b.1 := by
  cases htext : x.entryText entry stored with
  | error f =>
    rw [readable_of_error htext]
    exact .nil
  | ok text =>
    rw [readable_of_text htext]
    split
    case h_1 => exact List.pairwise_singleton _ _
    case h_2 =>
      split
      case h_1 m _ =>
        refine m.ascending.imp ?_
        intro a b hlt heq
        simp [heq, Std.ReflCmp.compare_self] at hlt
      case h_2 => exact .nil

theorem mem_contents_iff {entry key value : String} :
    (entry, key, value) ∈ x.contents ↔ x.Yields entry key value := by
  rw [contents, List.mem_flatMap]
  constructor
  · rintro ⟨⟨entry', stored⟩, hentry, hmem⟩
    obtain ⟨p, hp, heq⟩ := List.mem_map.mp hmem
    cases heq
    exact ⟨stored, SortedMap.get?_eq_some_iff.mpr hentry, mem_readable_iff.mp hp⟩
  · rintro ⟨stored, hentry, hgives⟩
    refine ⟨(entry, stored), SortedMap.get?_eq_some_iff.mp hentry, ?_⟩
    exact List.mem_map_of_mem (mem_readable_iff.mpr hgives)

/-- Where a key occurs twice, the second time is in a later entry. -/
theorem pairwise_contents (x : Object) : x.contents.Pairwise fun a b =>
    a.2.1 = b.2.1 → compare a.1 b.1 = .lt := by
  rw [contents, List.pairwise_flatMap]
  constructor
  · intro e _
    rw [List.pairwise_map]
    exact (x.pairwise_readable e.1 e.2).imp fun hne heq => absurd heq hne
  · refine x.data.ascending.imp fun {a b} hlt => ?_
    intro p hp q hq _
    obtain ⟨_, -, rfl⟩ := List.mem_map.mp hp
    obtain ⟨_, -, rfl⟩ := List.mem_map.mp hq
    exact hlt

/-- If all entries of an object can be read, these are its properties. -/
theorem properties_eq_ok {ps : List (String × String)} (h : x.properties = .ok ps) :
    ps = x.contents.map Prod.snd := by
  have hentries : ∀ {es ps}, x.propertiesOf es = .ok ps →
      ps = (es.flatMap fun e => (x.readable e.1 e.2).map (e.1, ·)).map Prod.snd := by
    intro es
    induction es with
    | nil =>
      intro ps hps
      cases hps
      rfl
    | cons e es ih =>
      intro ps hps
      obtain ⟨first, hfirst, hrest⟩ := bind_eq_ok.mp hps
      obtain ⟨rest, hothers, hpure⟩ := bind_eq_ok.mp hrest
      cases hpure
      have hreadable : x.readable e.1 e.2 = first := by
        rw [readable, hfirst]
        rfl
      rw [ih hothers, List.flatMap_cons, List.map_append, hreadable, List.map_map]
      congr 1
      exact (List.map_id first).symm
  exact hentries h

end Object

/-! ### Findings -/

/-- The properties of a finding, under its qualifier. -/
def Finding.properties (f : Finding) : List (String × String) :=
  f.object.contents.map fun c => (qualify f.qualifier c.2.1, c.2.2)

/-- A qualifier tells keys apart. -/
theorem qualify_inj {qualifier : Option String} {key key' : String}
    (h : qualify qualifier key = qualify qualifier key') : key = key' := by
  cases qualifier with
  | none => exact h
  | some q => exact (String.append_right_inj _).mp h

/-- The layers of findings put the properties of the findings over a snapshot. -/
theorem Snapshot.properties_of_addLayers {fetch : ObjectKey → Option Object} {fs : List Finding}
    (hfetch : ∀ f ∈ fs, fetch f.object.key = some f.object) {s t : Snapshot}
    (h : s.addLayers fetch (fs.map fun f => ⟨f.object.key, f.qualifier⟩) = .ok t) :
    t.properties = s.properties.insertMany (fs.flatMap Finding.properties) := by
  induction fs generalizing s with
  | nil =>
    cases h
    rfl
  | cons f fs ih =>
    obtain ⟨s', hfirst, hrest⟩ := bind_eq_ok.mp h
    rw [addLayer, hfetch f List.mem_cons_self] at hfirst
    obtain ⟨ps, hps, hpure⟩ := bind_eq_ok.mp hfirst
    cases hpure
    rw [ih (fun g hg => hfetch g (List.mem_cons_of_mem _ hg)) hrest, List.flatMap_cons,
      SortedMap.insertMany_append]
    congr 2
    rw [Object.properties_eq_ok hps, Finding.properties, List.map_map]
    rfl

/-- If an object was found more than once it was the same each time. -/
def Unanimous (fs : List Finding) : Prop :=
  ∀ f ∈ fs, ∀ g ∈ fs, f.object.key = g.object.key → f.object = g.object

namespace Resolution

/-- The object that a resolution keeps of a finding. -/
theorem get?_objects_ofFindings {fs : List Finding} (hfs : Unanimous fs) {f : Finding}
    (hf : f ∈ fs) : (ofFindings fs).objects.get? f.object.key = some f.object := by
  have hkey : (ofFindings fs).objects.contains f.object.key = true :=
    (contains_ofFindings fs _).mpr ⟨f, hf, rfl⟩
  obtain ⟨y, hy⟩ := SortedMap.contains_iff.mp hkey
  obtain ⟨before, g, after, rfl, hgkey, rfl, -⟩ := SortedMap.get?_ofList_map_iff.mp hy
  have hg : g ∈ before ++ g :: after := List.mem_append_right _ List.mem_cons_self
  rw [hy, hfs g hg f hf hgkey]

/-- **The properties of a snapshot** are those of the findings, of which the last one at a key
counts. -/
theorem properties_of_snapshot {fs : List Finding} (hfs : Unanimous fs) {snap : Snapshot}
    (h : (ofFindings fs).snapshot = .ok snap) :
    snap.properties = .ofList (fs.flatMap Finding.properties) :=
  Snapshot.properties_of_addLayers (fun _ hf => get?_objects_ofFindings hfs hf) h

end Resolution

end LiveConfig
