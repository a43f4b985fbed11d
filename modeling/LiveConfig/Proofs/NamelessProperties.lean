import LiveConfig.Proofs.Building
import LiveConfig.Proofs.WrittenProperties

/-!
# Properties without a name

A property that has the empty key cannot be written to a file and read back, and under a qualifier
it has a key that ends in a point. Entries of properties documents without a key are left out, and
so is a YAML document that is null; but what else a YAML document holds at its top, or under an
empty key there, becomes a property without a name (`Yaml.Value.Nameless`). There are no other ones
as long as no entry of an object has the empty name.

## Main definitions

* `Yaml.Value.Nameless` — a scalar at the top of a value, or behind empty keys only
* `Object.HoldsNameless` — an entry is a document with such a value

## Main results

* `Yaml.exists_mem_flatten_iff` — when a value has a property without a name
* `Properties.read_not_contains` — a properties document has none
* `Object.yields_empty_iff` — when an entry yields one
* `Snapshot.nameless_iff` — when a snapshot has one, and that it is read back unchanged otherwise
* `Snapshot.nameless_scalar` — a snapshot that has one
-/

namespace LiveConfig

/-! ### YAML documents -/

namespace Yaml

/-- A value has a scalar at its top, or behind empty keys only. Null is none of these scalars. -/
inductive Value.Nameless : Value → Prop
  | bool (b : Bool) : Nameless (.bool b)
  | number (n : Number) : Nameless (.number n)
  | text (s : String) : Nameless (.text s)
  | field {pairs : List (Value × Value)} {k v : Value} (hmem : (k, v) ∈ pairs)
      (hkey : k.keyText? = some "") (h : Nameless v) : Nameless (.mapping pairs)
  | tagged (tag : String) {v : Value} (h : Nameless v) : Nameless (.tagged tag v)

theorem fieldName_eq_empty_iff {name key : String} :
    fieldName name key = "" ↔ name = "" ∧ key = "" := by
  rw [fieldName]
  by_cases h : name = ""
  · simp [h]
  · simp [h, String.append_eq_empty_iff]

theorem itemName_ne_empty (name : String) (index : Nat) : itemName name index ≠ "" := by
  simp [itemName, String.append_eq_empty_iff]

mutual

/-- A property without a name comes from a scalar without a name, in a value without a name. -/
theorem nameless_of_mem_flatten {name s : String} :
    ∀ {v : Value}, ("", s) ∈ v.flatten name → name = "" ∧ v.Nameless
  | .null, h => by
    rw [Value.flatten] at h
    split at h
    · cases h
    · next hname =>
      obtain ⟨rfl, -⟩ := Prod.mk.inj (List.mem_singleton.mp h)
      exact absurd rfl hname
  | .bool b, h => by
    obtain ⟨hname, -⟩ := Prod.mk.inj (List.mem_singleton.mp h)
    exact ⟨hname.symm, .bool b⟩
  | .number n, h => by
    obtain ⟨hname, -⟩ := Prod.mk.inj (List.mem_singleton.mp h)
    exact ⟨hname.symm, .number n⟩
  | .text t, h => by
    obtain ⟨hname, -⟩ := Prod.mk.inj (List.mem_singleton.mp h)
    exact ⟨hname.symm, .text t⟩
  | .sequence items, h => absurd h not_mem_flattenItems
  | .mapping pairs, h => by
    obtain ⟨hname, k, v, hmem, hkey, hv⟩ := nameless_of_mem_flattenPairs h
    exact ⟨hname, .field hmem hkey hv⟩
  | .tagged tag v, h => by
    obtain ⟨hname, hv⟩ := nameless_of_mem_flatten (v := v) h
    exact ⟨hname, .tagged tag hv⟩

theorem not_mem_flattenItems {name s : String} {index : Nat} :
    ∀ {items : List Value}, ("", s) ∉ flattenItems name index items
  | [] => List.not_mem_nil
  | v :: r => fun h => by
    rcases List.mem_append.mp h with h | h
    · exact itemName_ne_empty name index (nameless_of_mem_flatten h).1
    · exact not_mem_flattenItems h

theorem nameless_of_mem_flattenPairs {name s : String} :
    ∀ {pairs : List (Value × Value)}, ("", s) ∈ flattenPairs name pairs →
      name = "" ∧ ∃ k v, (k, v) ∈ pairs ∧ k.keyText? = some "" ∧ v.Nameless
  | [], h => nomatch h
  | (k, v) :: r, h => by
    rcases List.mem_append.mp h with h | h
    · cases hkey : k.keyText? with
      | none => simp [hkey] at h
      | some key =>
        simp only [hkey] at h
        obtain ⟨hfield, hv⟩ := nameless_of_mem_flatten h
        obtain ⟨hname, rfl⟩ := fieldName_eq_empty_iff.mp hfield
        exact ⟨hname, k, v, List.mem_cons_self, hkey, hv⟩
    · obtain ⟨hname, k', v', hmem, hrest⟩ := nameless_of_mem_flattenPairs h
      exact ⟨hname, k', v', List.mem_cons_of_mem _ hmem, hrest⟩

end

theorem mem_flattenPairs {name key : String} {k v : Value} (hkey : k.keyText? = some key)
    {e : String × String} (he : e ∈ v.flatten (fieldName name key)) :
    ∀ {pairs : List (Value × Value)}, (k, v) ∈ pairs → e ∈ flattenPairs name pairs
  | p :: r, hmem => by
    rw [flattenPairs]
    rcases List.mem_cons.mp hmem with rfl | hmem
    · refine List.mem_append_left _ ?_
      simp only [hkey]
      exact he
    · exact List.mem_append_right _ (mem_flattenPairs hkey he hmem)

/-- **A value has a property without a name if and only if** it is nameless. -/
theorem exists_mem_flatten_iff {v : Value} : (∃ s, ("", s) ∈ v.flatten "") ↔ v.Nameless := by
  constructor
  · rintro ⟨s, hs⟩
    exact (nameless_of_mem_flatten hs).2
  · intro h
    induction h with
    | bool b => exact ⟨_, List.mem_singleton_self _⟩
    | number n => exact ⟨_, List.mem_singleton_self _⟩
    | text s => exact ⟨_, List.mem_singleton_self _⟩
    | field hmem hkey h ih =>
      obtain ⟨s, hs⟩ := ih
      have hname : fieldName "" "" = "" := fieldName_eq_empty_iff.mpr ⟨rfl, rfl⟩
      exact ⟨s, mem_flattenPairs hkey (by rwa [hname]) hmem⟩
    | tagged tag h ih => exact ih

theorem contains_flattenAll_iff {vs : List Value} :
    (flattenAll vs).contains "" = true ↔ ∃ v ∈ vs, v.Nameless := by
  rw [flattenAll, SortedMap.contains_ofList]
  simp only [List.mem_map, List.mem_flatMap, ← exists_mem_flatten_iff]
  constructor
  · rintro ⟨⟨_, s⟩, ⟨v, hv, hs⟩, rfl⟩
    exact ⟨v, hv, s, hs⟩
  · rintro ⟨v, hv, s, hs⟩
    exact ⟨("", s), ⟨v, hv, hs⟩, rfl⟩

end Yaml

/-! ### Properties documents -/

namespace Properties

theorem key_ne_empty {entry : List Char} {p : String × String}
    (h : readEntry entry = .ok (some p)) : p.1 ≠ "" := by
  obtain ⟨key, -, h⟩ := bind_eq_ok.mp h
  split at h
  · cases h
  · next hkey =>
    obtain ⟨value, -, h⟩ := bind_eq_ok.mp h
    cases h
    simpa using hkey

theorem keys_ne_empty {entries : List (List Char)} {ps : List (String × String)}
    (h : readEntries entries = .ok ps) : ∀ p ∈ ps, p.1 ≠ "" := by
  induction entries generalizing ps with
  | nil =>
    cases h
    exact nofun
  | cons e entries ih =>
    intro p hp
    obtain ⟨first, hfirst, hrest⟩ := bind_eq_ok.mp h
    obtain ⟨rest, hothers, hpure⟩ := bind_eq_ok.mp hrest
    cases hpure
    rcases List.mem_append.mp hp with hp | hp
    · rw [Option.mem_toList] at hp
      exact key_ne_empty (hp ▸ hfirst)
    · exact ih hothers p hp

/-- **No property of a properties document is without a name.** -/
theorem read_not_contains {document : List Char} {m : SortedMap String String}
    (h : Properties.read document = .ok m) : m.contains "" = false := by
  obtain ⟨ps, hps, hpure⟩ := bind_eq_ok.mp h
  cases hpure
  rw [Bool.eq_false_iff, ne_eq, SortedMap.contains_ofList, List.mem_map]
  rintro ⟨p, hp, hkey⟩
  exact keys_ne_empty hps p hp hkey

end Properties

/-! ### Objects -/

namespace Object

/-- An entry of an object is a YAML document with a value that is nameless. -/
def HoldsNameless (x : Object) (entry : String) : Prop :=
  Document.Announces entry .yaml ∧ ∃ stored text vs, x.data.get? entry = some stored ∧
    x.entryText entry stored = .ok text ∧ Yaml.values text.toList = .ok vs ∧ ∃ v ∈ vs, v.Nameless

variable {x : Object}

/-- **An entry with a name yields a property without one if and only if** it holds one in YAML. -/
theorem yields_empty_iff {entry : String} (hentry : entry ≠ "") :
    (∃ v, x.Yields entry "" v) ↔ x.HoldsNameless entry := by
  constructor
  · rintro ⟨v, stored, hget, hgives⟩
    cases hgives with
    | text => exact absurd rfl hentry
    | @document text _ _ format m htext hformat hm hv =>
      have hempty : m.contains "" = true := SortedMap.contains_iff.mpr ⟨v, hv⟩
      cases format with
      | properties =>
        have hread := mapError_eq_ok_iff.mp hm
        rw [Properties.read_not_contains hread] at hempty
        cases hempty
      | yaml =>
        obtain ⟨vs, hvs, hpure⟩ := bind_eq_ok.mp (mapError_eq_ok_iff.mp hm)
        cases hpure
        exact ⟨hformat, stored, text, vs, hget, htext, hvs, Yaml.contains_flattenAll_iff.mp hempty⟩
  · rintro ⟨hformat, stored, text, vs, hget, htext, hvs, hnameless⟩
    obtain ⟨v, hv⟩ := SortedMap.contains_iff.mp (Yaml.contains_flattenAll_iff.mpr hnameless)
    refine ⟨v, stored, hget, .document htext hformat ?_ hv⟩
    rw [Document.expand, Yaml.read, hvs]
    rfl

end Object

/-! ### Snapshots -/

namespace Snapshot

/-- A source without a qualifier has an object that holds a nameless value. -/
def FromNameless (fetch : ObjectKey → Option Object) (ls : List Layer) : Prop :=
  ∃ l ∈ ls, l.qualifier = none ∧ ∃ x entry, fetch l.key = some x ∧ x.HoldsNameless entry

theorem qualify_eq_empty_iff {qualifier : Option String} {key : String} :
    qualify qualifier key = "" ↔ qualifier = none ∧ key = "" := by
  cases qualifier with
  | none => simp [qualify]
  | some q => simp [qualify, String.append_eq_empty_iff]

/-- A key behind a qualifier is longer than the qualifier and the point, unless it is empty. -/
theorem length_lt_qualify_iff {q key : String} :
    (q ++ ".").length < (qualify (some q) key).length ↔ key ≠ "" := by
  have hlength : (qualify (some q) key).length = (q ++ ".").length + key.length :=
    String.length_append _ _
  rw [hlength, Nat.lt_add_right_iff_pos, Nat.pos_iff_ne_zero, ne_eq, String.length_eq_zero_iff]

/-- **Properties without a name.** Let no object of the sources of a snapshot have an entry with the
empty name. What a source puts under a qualifier gets a key that is longer than the qualifier and
the point, with one exception: its object holds a nameless value, and then there is a property that
does not. The snapshot has the empty key if and only if a source without a qualifier holds a
nameless value, and the file that is written of it is read back unchanged if and only if none
does. -/
theorem nameless_iff {fetch : ObjectKey → Option Object} {ls : List Layer} {s : Snapshot}
    (hbuild : build fetch ls = .ok s)
    (hentries : ∀ l ∈ ls, ∀ x, fetch l.key = some x → x.data.contains "" = false) :
    (∀ l ∈ ls, ∀ q x, l.qualifier = some q → fetch l.key = some x → ∀ entry,
      ((∃ key v, x.Yields entry key v ∧ ¬ (q ++ ".").length < (qualify (some q) key).length) ↔
        x.HoldsNameless entry)) ∧
    (s.properties.contains "" = true ↔ FromNameless fetch ls) ∧
    (Document.expand .properties (Refresh.file s) = .ok s.properties ↔
      ¬ FromNameless fetch ls) := by
  have hyields : ∀ l ∈ ls, ∀ x, fetch l.key = some x → ∀ entry,
      (∃ v, x.Yields entry "" v) ↔ x.HoldsNameless entry := by
    intro l hl x hx entry
    by_cases hentry : entry = ""
    · subst hentry
      have hnone : x.data.get? "" = none := by
        simpa [SortedMap.contains] using hentries l hl x hx
      constructor
      · rintro ⟨v, stored, hget, -⟩
        rw [hnone] at hget
        cases hget
      · rintro ⟨-, stored, _, _, hget, -⟩
        rw [hnone] at hget
        cases hget
    · exact Object.yields_empty_iff hentry
  have hempty : s.properties.contains "" = true ↔ FromNameless fetch ls := by
    rw [contains_build_iff hbuild]
    constructor
    · rintro ⟨l, hl, x, hx, entry, key, v, hv, hkey⟩
      obtain ⟨hqualifier, rfl⟩ := qualify_eq_empty_iff.mp (qualified_iff.mp hkey)
      exact ⟨l, hl, hqualifier, x, entry, hx, (hyields l hl x hx entry).mp ⟨v, hv⟩⟩
    · rintro ⟨l, hl, hqualifier, x, entry, hx, hholds⟩
      obtain ⟨v, hv⟩ := (hyields l hl x hx entry).mpr hholds
      exact ⟨l, hl, x, hx, entry, "", v, hv,
        qualified_iff.mpr (qualify_eq_empty_iff.mpr ⟨hqualifier, rfl⟩)⟩
  refine ⟨fun l hl q x _ hx entry => ?_, hempty, ?_⟩
  · rw [← hyields l hl x hx entry]
    constructor
    · rintro ⟨key, v, hv, hshort⟩
      by_cases hkey : key = ""
      · exact ⟨v, hkey ▸ hv⟩
      · exact absurd (length_lt_qualify_iff.mpr hkey) hshort
    · rintro ⟨v, hv⟩
      exact ⟨"", v, hv, fun hlong => length_lt_qualify_iff.mp hlong rfl⟩
  · rw [Refresh.expand_file, Except.ok.injEq, SortedMap.erase_eq_self_iff, ← hempty,
      Bool.not_eq_true]

/-- A config map whose one entry is a YAML document that is a mere text. -/
def greeting : SortedMap ObjectKey Object := .ofList
  [(⟨.configMap, "ns", "app"⟩,
      ⟨⟨.configMap, "ns", "app"⟩, ∅, .ofList [("app.yaml", "hello")], "1"⟩)]

/-- The text has the empty key. -/
theorem build_greeting : build greeting.get? [⟨⟨.configMap, "ns", "app"⟩, none⟩] =
    .ok ⟨.ofList [("", "hello")], .ofList [(⟨.configMap, "ns", "app"⟩, "1")]⟩ :=
  eq_ok_of_toOption (by decide +kernel)

theorem entries_greeting (qualifier : Option String) :
    ∀ l ∈ [(⟨⟨.configMap, "ns", "app"⟩, qualifier⟩ : Layer)], ∀ x, greeting.get? l.key = some x →
      x.data.contains "" = false := by
  intro l hl x hx
  obtain rfl := List.mem_singleton.mp hl
  have hget : greeting.get? ⟨.configMap, "ns", "app"⟩ =
      some ⟨⟨.configMap, "ns", "app"⟩, ∅, .ofList [("app.yaml", "hello")], "1"⟩ := by decide
  cases hget.symm.trans hx
  decide

/-- Under a qualifier the text has the key `p.`, and without one the snapshot has the empty key, so
that what is written of it is not read back. -/
theorem nameless_iff_greeting :
    (∃ s, build greeting.get? [⟨⟨.configMap, "ns", "app"⟩, some "p"⟩] = .ok s ∧
      ∃ x, greeting.get? ⟨.configMap, "ns", "app"⟩ = some x ∧ x.HoldsNameless "app.yaml" ∧
        s.properties.get? "p." = some "hello") ∧
    ∃ s, build greeting.get? [⟨⟨.configMap, "ns", "app"⟩, none⟩] = .ok s ∧
      FromNameless greeting.get? [⟨⟨.configMap, "ns", "app"⟩, none⟩] ∧
      Document.expand .properties (Refresh.file s) ≠ .ok s.properties := by
  let x : Object := ⟨⟨.configMap, "ns", "app"⟩, ∅, .ofList [("app.yaml", "hello")], "1"⟩
  have hx : greeting.get? ⟨.configMap, "ns", "app"⟩ = some x := by decide
  have hqualified : build greeting.get? [⟨⟨.configMap, "ns", "app"⟩, some "p"⟩] =
      .ok ⟨.ofList [("p.", "hello")], .ofList [(⟨.configMap, "ns", "app"⟩, "1")]⟩ :=
    eq_ok_of_toOption (by decide +kernel)
  have hdocument : Document.expand .yaml "hello" = .ok (.ofList [("", "hello")]) :=
    eq_ok_of_toOption (by decide +kernel)
  have hyields : x.Yields "app.yaml" "" "hello" :=
    ⟨"hello", by decide, .document rfl (.yaml "app") hdocument (by decide)⟩
  have hholds := ((nameless_iff hqualified (entries_greeting (some "p"))).1 _ List.mem_cons_self
    "p" x rfl hx "app.yaml").mp ⟨"", "hello", hyields, by decide⟩
  obtain ⟨-, hempty, hunchanged⟩ := nameless_iff build_greeting (entries_greeting none)
  have hnameless := hempty.mp (by decide)
  exact ⟨⟨_, hqualified, x, hx, hholds, by decide⟩, _, build_greeting, hnameless,
    fun hread => hunchanged.mp hread hnameless⟩

/-- **Not every snapshot is without the empty key** although no entry has the empty name. -/
theorem nameless_scalar : ¬ ∀ (fetch : ObjectKey → Option Object) (ls : List Layer) (s : Snapshot),
    build fetch ls = .ok s →
    (∀ l ∈ ls, ∀ x, fetch l.key = some x → x.data.contains "" = false) →
    ∀ key, s.properties.contains key = true → key ≠ "" :=
  fun h => h greeting.get? _ _ build_greeting (entries_greeting none) "" (by decide) rfl

end Snapshot

end LiveConfig
