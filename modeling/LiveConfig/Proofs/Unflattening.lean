import LiveConfig.Proofs.KeyPaths
import LiveConfig.Proofs.PropertyTree
import LiveConfig.Yaml.Flatten

/-!
# Flattened values arranged again

Flattening a value writes the path to each of its scalars into the name of a property; arranging
properties in a tree reads these paths again. For values without anything that gets lost on the way
the tree is the value itself, with the texts of the scalars in place of the scalars.

The names and the paths are compared step by step (`Yaml.Names`), after which only paths are left.
The paths of a value part ways with each other, so that the order of the properties, which is that
of their names, does not matter; and put into a tree in the order of the value they build it up from
left to right.

## Main definitions

* `Yaml.Value.Plain` — nothing of a value gets lost when it is flattened
* `Yaml.Value.tree` — a value as a tree of texts
* `Yaml.Value.leaves` — the texts of a value and the paths to them
* `Yaml.Names` — a name of a property is put together from the steps of a path

## Main results

* `Yaml.Value.Plain.map_spell_flatten` — the properties of a value spell out its leaves
* `Yaml.Value.Plain.pairwise_leaves` — the paths to the leaves part ways
* `Yaml.Value.Plain.builds` — the leaves in their order build up the tree of the value
* `Yaml.ofSnapshot_flattenAll` — the tree of the properties of a mapping is the mapping
-/

namespace LiveConfig

namespace Yaml

open Binding

/-! ### Values as trees -/

/-- The text of a scalar as a property has it. -/
def Value.scalarText? : Value → Option String
  | .null => some ""
  | .bool b => some (if b then "true" else "false")
  | .number n => some n.text
  | .text s => some s
  | _ => none

mutual

/-- A value as a tree: each scalar is its text, and fields whose keys have no text are left out. -/
def Value.tree : Value → Tree
  | .null => .text ""
  | .bool b => .text (if b then "true" else "false")
  | .number n => .text n.text
  | .text s => .text s
  | .sequence items => .list (treesOf items)
  | .mapping pairs => .record (SortedMap.ofList (fieldsOf pairs)).entries
  | .tagged _ v => v.tree

/-- The items of a sequence as trees. -/
def treesOf : List Value → List Tree
  | [] => []
  | v :: r => v.tree :: treesOf r

/-- The pairs of a mapping as named trees, in the order of the mapping. -/
def fieldsOf : List (Value × Value) → List (String × Tree)
  | [] => []
  | (k, v) :: r =>
    match k.keyText? with
    | some key => (key, v.tree) :: fieldsOf r
    | none => fieldsOf r

end

/-- Whether a value is a sequence or mapping with nothing in it. -/
def Value.isVacant : Value → Bool
  | .sequence [] => true
  | .mapping [] => true
  | _ => false

/-- A text that is nothing but the name of a field wherever it stands in a key. -/
structure IsName (key : String) : Prop where
  ne_empty : key ≠ ""
  point_not_mem : '.' ∉ key.toList
  bracket_not_mem : '[' ∉ key.toList

/-- Nothing of a value gets lost when it is flattened: it consists of scalars, of sequences that are
not too long, and of mappings whose keys name different fields; and in none of these anything is
empty. -/
inductive Value.Plain : Value → Prop
  | scalar {v : Value} {s : String} (h : v.scalarText? = some s) : Plain v
  | sequence {items : List Value} (hlength : items.length ≤ listLimit)
      (hfull : ∀ v ∈ items, v.isVacant = false) (h : ∀ v ∈ items, Plain v) :
      Plain (.sequence items)
  | mapping {pairs : List (Value × Value)}
      (hkeys : ∀ p ∈ pairs, ∃ key, p.1.keyText? = some key ∧ IsName key)
      (hdistinct : (pairs.map fun p => p.1.keyText?).Nodup)
      (hfull : ∀ p ∈ pairs, p.2.isVacant = false) (h : ∀ p ∈ pairs, Plain p.2) :
      Plain (.mapping pairs)

/-! ### Leaves -/

mutual

/-- The texts of a value, each with the path to it, in the order of the value. -/
def Value.leaves : Value → List (List Segment × String)
  | .null => [([], "")]
  | .bool b => [([], if b then "true" else "false")]
  | .number n => [([], n.text)]
  | .text s => [([], s)]
  | .sequence items => itemLeaves 0 items
  | .mapping pairs => pairLeaves pairs
  | .tagged _ v => v.leaves

/-- The leaves of the items of a sequence from an index on. -/
def itemLeaves (index : Nat) : List Value → List (List Segment × String)
  | [] => []
  | v :: r => v.leaves.map (behind (.index index)) ++ itemLeaves (index + 1) r

/-- The leaves of the pairs of a mapping. -/
def pairLeaves : List (Value × Value) → List (List Segment × String)
  | [] => []
  | (k, v) :: r =>
    (match k.keyText? with
      | some key => v.leaves.map (behind (.field key))
      | none => []) ++ pairLeaves r

end

section Scalar

variable {v : Value} {s : String}

theorem leaves_scalar (h : v.scalarText? = some s) : v.leaves = [([], s)] := by
  cases v <;> cases h <;> rfl

theorem tree_scalar (h : v.scalarText? = some s) : v.tree = .text s := by
  cases v <;> cases h <;> rfl

theorem flatten_scalar (h : v.scalarText? = some s) {name : String} (hname : name ≠ "") :
    v.flatten name = [(name, s)] := by
  cases v <;> cases h <;> simp [Value.flatten, hname]

end Scalar

/-- What is not empty has a leaf. -/
theorem Value.Plain.leaves_ne_nil {v : Value} (h : v.Plain) (hfull : v.isVacant = false) :
    v.leaves ≠ [] := by
  induction h with
  | scalar h => simp [leaves_scalar h]
  | @sequence items hlength hitems h ih =>
    cases items with
    | nil => cases hfull
    | cons v r =>
      have hv := ih v List.mem_cons_self (hitems v List.mem_cons_self)
      simp [Value.leaves, itemLeaves, hv]
  | @mapping pairs hkeys hdistinct hpairs h ih =>
    cases pairs with
    | nil => cases hfull
    | cons p r =>
      obtain ⟨k, v⟩ := p
      obtain ⟨key, hkey, -⟩ := hkeys (k, v) List.mem_cons_self
      have hv := ih (k, v) List.mem_cons_self (hpairs (k, v) List.mem_cons_self)
      simp [Value.leaves, pairLeaves, hkey, hv]

/-! ### Names -/

/-- A name is put together from the steps of a path. The whole value has no name. -/
inductive Names : String → List Segment → Prop
  | whole : Names "" []
  | field {name key : String} {path : List Segment} (h : Names name path) (hkey : IsName key) :
      Names (fieldName name key) (path ++ [.field key])
  | item {name : String} {path : List Segment} {i : Nat} (h : Names name path) (hpath : path ≠ [])
      (hi : i < listLimit) : Names (itemName name i) (path ++ [.index i])

/-- A name spells out the path that it is put together from. -/
theorem Names.spells {name : String} {path : List Segment} (h : Names name path) :
    (path = [] ∧ name = "") ∨
      (path ≠ [] ∧ name ≠ "" ∧ pathOf name = path ∧ Extensible name) := by
  induction h with
  | whole => exact Or.inl ⟨rfl, rfl⟩
  | @field name key path h hkey ih =>
    obtain ⟨hpath, hextensible⟩ := pathOf_name hkey.point_not_mem hkey.bracket_not_mem
    refine Or.inr ⟨by simp, ?_⟩
    rcases ih with ⟨rfl, rfl⟩ | ⟨-, hne, hname, -⟩
    · exact ⟨hkey.ne_empty, hpath, hextensible⟩
    · have hfield : fieldName name key = name ++ "." ++ key := by simp [fieldName, hne]
      rw [hfield, pathOf_point, hname, hpath]
      exact ⟨by simp [String.append_eq_empty_iff], rfl, extensible_point name hextensible⟩
  | @item name path i h hpath hi ih =>
    obtain ⟨-, hne, hname, hextensible⟩ := ih.resolve_left fun h => hpath h.1
    obtain ⟨hpath', hextensible'⟩ := pathOf_bracket hextensible hi
    exact Or.inr ⟨by simp, by simp [itemName], by rw [itemName, hpath', hname], hextensible'⟩

/-- A property by its path. -/
def spell (e : String × String) : List Segment × String := (pathOf e.1, e.2)

/-- A leaf with a path before its own. -/
def under (path : List Segment) (leaf : List Segment × String) : List Segment × String :=
  (path ++ leaf.1, leaf.2)

theorem under_behind (path : List Segment) (s : Segment) (l : List (List Segment × String)) :
    (l.map (behind s)).map (under path) = l.map (under (path ++ [s])) := by
  simp [under, behind, Function.comp_def]

/-- The properties of a value with a name spell out its leaves behind the path of the name. -/
def Spelled (v : Value) : Prop :=
  ∀ {name : String} {path : List Segment}, Names name path →
    (path ≠ [] ∨ ∃ pairs, v = .mapping pairs) →
      (v.flatten name).map spell = v.leaves.map (under path)

theorem map_spell_flattenItems {items : List Value} (h : ∀ v ∈ items, Spelled v) {name : String}
    {path : List Segment} (hname : Names name path) (hpath : path ≠ []) {i : Nat}
    (hlength : i + items.length ≤ listLimit) :
    (flattenItems name i items).map spell = (itemLeaves i items).map (under path) := by
  induction items generalizing i with
  | nil => rfl
  | cons v r ih =>
    obtain ⟨hv, hr⟩ := List.forall_mem_cons.mp h
    rw [List.length_cons] at hlength
    have hfirst := hv (hname.item hpath (i := i) (by omega)) (Or.inl (by simp))
    have hrest := ih hr (i := i + 1) (by omega)
    rw [flattenItems, itemLeaves, List.map_append, List.map_append, under_behind, hfirst, hrest]

theorem map_spell_flattenPairs {pairs : List (Value × Value)} (h : ∀ p ∈ pairs, Spelled p.2)
    (hkeys : ∀ p ∈ pairs, ∃ key, p.1.keyText? = some key ∧ IsName key) {name : String}
    {path : List Segment} (hname : Names name path) :
    (flattenPairs name pairs).map spell = (pairLeaves pairs).map (under path) := by
  induction pairs with
  | nil => rfl
  | cons p r ih =>
    obtain ⟨k, v⟩ := p
    obtain ⟨hv, hr⟩ := List.forall_mem_cons.mp h
    obtain ⟨⟨key, hkey, hisName⟩, hkeys⟩ := List.forall_mem_cons.mp hkeys
    have hfirst := hv (hname.field hisName) (Or.inl (by simp))
    rw [flattenPairs, pairLeaves, hkey, List.map_append, List.map_append, under_behind, hfirst,
      ih hr hkeys]

/-- **The properties of a value spell out its leaves.** -/
theorem Value.Plain.map_spell_flatten {v : Value} (h : v.Plain) : Spelled v := by
  induction h with
  | @scalar v s h =>
    intro name path hname hplace
    have hpath : path ≠ [] := by
      refine hplace.resolve_right ?_
      rintro ⟨pairs, rfl⟩
      cases h
    obtain ⟨-, hne, hspells, -⟩ := hname.spells.resolve_left fun h => hpath h.1
    rw [flatten_scalar h hne, leaves_scalar h]
    simp [spell, under, hspells]
  | sequence hlength hfull h ih =>
    intro name path hname hplace
    have hpath : path ≠ [] := by
      refine hplace.resolve_right ?_
      rintro ⟨pairs, hpairs⟩
      cases hpairs
    exact map_spell_flattenItems ih hname hpath (by omega)
  | mapping hkeys hdistinct hfull h ih =>
    intro name path hname _
    exact map_spell_flattenPairs ih hkeys hname

/-! ### The paths of a value -/

theorem mem_itemLeaves {items : List Value} {i : Nat} {leaf : List Segment × String}
    (h : leaf ∈ itemLeaves i items) : ∃ j, i ≤ j ∧ ∃ p, leaf.1 = .index j :: p := by
  induction items generalizing i with
  | nil => cases h
  | cons v r ih =>
    rw [itemLeaves, List.mem_append, List.mem_map] at h
    rcases h with ⟨l, -, rfl⟩ | h
    · exact ⟨i, Nat.le_refl i, l.1, rfl⟩
    · obtain ⟨j, hj, hp⟩ := ih h
      exact ⟨j, by omega, hp⟩

theorem mem_pairLeaves {pairs : List (Value × Value)} {leaf : List Segment × String}
    (h : leaf ∈ pairLeaves pairs) :
    ∃ key, some key ∈ pairs.map (fun p => p.1.keyText?) ∧ ∃ p, leaf.1 = .field key :: p := by
  induction pairs with
  | nil => cases h
  | cons p r ih =>
    obtain ⟨k, v⟩ := p
    rw [pairLeaves, List.mem_append] at h
    rcases h with h | h
    · cases hk : k.keyText? with
      | none => simp [hk] at h
      | some key =>
        simp only [hk, List.mem_map] at h
        obtain ⟨l, -, rfl⟩ := h
        exact ⟨key, by simp [hk], l.1, rfl⟩
    · obtain ⟨key, hkey, hp⟩ := ih h
      exact ⟨key, List.mem_cons_of_mem _ hkey, hp⟩

theorem pairwise_behind {l : List (List Segment × String)}
    (h : l.Pairwise fun a b => Apart a.1 b.1) (s : Segment) :
    (l.map (behind s)).Pairwise fun a b => Apart a.1 b.1 :=
  List.pairwise_map.mpr (h.imp fun h => h.behind s)

/-- **The paths to the leaves of a value part ways.** -/
theorem Value.Plain.pairwise_leaves {v : Value} (h : v.Plain) :
    v.leaves.Pairwise fun a b => Apart a.1 b.1 := by
  induction h with
  | scalar h => simp [leaves_scalar h]
  | @sequence items hlength hfull h ih =>
    have hitems : ∀ i, (itemLeaves i items).Pairwise fun a b => Apart a.1 b.1 := by
      clear hlength hfull h
      induction items with
      | nil => exact fun _ => .nil
      | cons v r ihr =>
        intro i
        obtain ⟨hv, hr⟩ := List.forall_mem_cons.mp ih
        refine List.pairwise_append.mpr ⟨pairwise_behind hv _, ihr hr (i + 1), ?_⟩
        intro a ha b hb
        obtain ⟨l, -, rfl⟩ := List.mem_map.mp ha
        obtain ⟨j, hj, p, hp⟩ := mem_itemLeaves hb
        rw [hp]
        exact .here (.items (by omega)) l.1 p
    exact hitems 0
  | @mapping pairs hkeys hdistinct hfull h ih =>
    change (pairLeaves pairs).Pairwise fun a b => Apart a.1 b.1
    clear hfull h
    induction pairs with
    | nil => exact .nil
    | cons p r ihr =>
      obtain ⟨k, v⟩ := p
      obtain ⟨hv, hr⟩ := List.forall_mem_cons.mp ih
      obtain ⟨⟨key, hkey, -⟩, hkeys⟩ := List.forall_mem_cons.mp hkeys
      rw [List.map_cons, List.nodup_cons] at hdistinct
      rw [pairLeaves, hkey]
      refine List.pairwise_append.mpr ⟨pairwise_behind hv _, ihr hkeys hdistinct.2 hr, ?_⟩
      intro a ha b hb
      obtain ⟨l, -, rfl⟩ := List.mem_map.mp ha
      obtain ⟨key', hkey', p, hp⟩ := mem_pairLeaves hb
      have hne : key ≠ key' := by
        rintro rfl
        exact hdistinct.1 (hkey ▸ hkey')
      rw [hp]
      exact .here (.fields hne) l.1 p

/-! ### Building up -/

/-- The leaves of a value, put where there is nothing, build it up. -/
def Builds (v : Value) : Prop := v.leaves ≠ [] ∧ Tree.putAll v.leaves .null = v.tree

/-- The leaves of items go behind the items that a list has. -/
theorem putAll_itemLeaves {items : List Value} (h : ∀ v ∈ items, Builds v) {t : Tree}
    {ts : List Tree} (ht : t.items = ts) (hlist : items ≠ [] ∨ t = .list ts) :
    Tree.putAll (itemLeaves ts.length items) t = .list (ts ++ treesOf items) := by
  induction items generalizing t ts with
  | nil =>
    obtain rfl := hlist.resolve_left (absurd rfl)
    simp [itemLeaves, treesOf, Tree.putAll]
  | cons v r ih =>
    obtain ⟨⟨hne, hv⟩, hr⟩ := List.forall_mem_cons.mp h
    have hnull : Tree.part (.index ts.length) t = .null := by
      simp [Tree.part, ht]
    have hfirst : Tree.withPart (.index ts.length) v.tree t = .list (ts ++ [v.tree]) := by
      simp [Tree.withPart, Tree.pad, ht]
    have hrest := ih hr (Tree.items_list (ts ++ [v.tree])) (Or.inr rfl)
    rw [List.length_append, List.length_singleton] at hrest
    rw [itemLeaves, Tree.putAll_append, Tree.putAll_behind hne, hnull, hv, hfirst, hrest, treesOf,
      List.append_assoc]
    rfl

/-- The leaves of pairs with new keys go into the fields that a record has. -/
theorem putAll_pairLeaves {pairs : List (Value × Value)} (h : ∀ p ∈ pairs, Builds p.2)
    (hkeys : ∀ p ∈ pairs, ∃ key, p.1.keyText? = some key ∧ IsName key)
    (hdistinct : (pairs.map fun p => p.1.keyText?).Nodup) {t : Tree} {m : SortedMap String Tree}
    (ht : t.fields = m.entries) (hnew : ∀ key, some key ∈ pairs.map (fun p => p.1.keyText?) →
      m.get? key = none) (hrecord : pairs ≠ [] ∨ t = .record m.entries) :
    Tree.putAll (pairLeaves pairs) t = .record (m.insertMany (fieldsOf pairs)).entries := by
  induction pairs generalizing t m with
  | nil => exact hrecord.resolve_left (absurd rfl)
  | cons p r ih =>
    obtain ⟨k, v⟩ := p
    obtain ⟨⟨hne, hv⟩, hr⟩ := List.forall_mem_cons.mp h
    obtain ⟨⟨key, hkey, -⟩, hkeys⟩ := List.forall_mem_cons.mp hkeys
    rw [List.map_cons, List.nodup_cons] at hdistinct
    have hnull : Tree.part (.field key) t = .null := by
      have hget : m.get? key = none := hnew key (by simp [hkey])
      simp only [Tree.part, ht]
      change (m.get? key).getD .null = .null
      rw [hget]
      rfl
    have hfirst : Tree.withPart (.field key) v.tree t = .record (m.insert key v.tree).entries := by
      rw [Tree.withPart, ht]
      rfl
    have hnew' : ∀ key', some key' ∈ r.map (fun p => p.1.keyText?) →
        (m.insert key v.tree).get? key' = none := by
      intro key' hkey'
      have hother : key' ≠ key := by
        rintro rfl
        exact hdistinct.1 (hkey ▸ hkey')
      rw [SortedMap.get?_insert_eq, if_neg hother]
      exact hnew key' (List.mem_cons_of_mem _ hkey')
    rw [pairLeaves, hkey, Tree.putAll_append, Tree.putAll_behind hne, hnull, hv, hfirst,
      ih hr hkeys hdistinct.2 rfl hnew' (Or.inr rfl), fieldsOf, hkey]
    rfl

/-- **The leaves of a value, in its order, build it up.** -/
theorem Value.Plain.builds {v : Value} (h : v.Plain) (hfull : v.isVacant = false) : Builds v := by
  refine ⟨h.leaves_ne_nil hfull, ?_⟩
  induction h with
  | scalar h => rw [leaves_scalar h, tree_scalar h]; rfl
  | @sequence items hlength hitems h ih =>
    have hbuilds : ∀ v ∈ items, Builds v := fun v hv =>
      ⟨(h v hv).leaves_ne_nil (hitems v hv), ih v hv (hitems v hv)⟩
    have hne : items ≠ [] := by
      rintro rfl
      cases hfull
    exact putAll_itemLeaves hbuilds (t := .null) rfl (Or.inl hne)
  | @mapping pairs hkeys hdistinct hpairs h ih =>
    have hbuilds : ∀ p ∈ pairs, Builds p.2 := fun p hp =>
      ⟨(h p hp).leaves_ne_nil (hpairs p hp), ih p hp (hpairs p hp)⟩
    have hne : pairs ≠ [] := by
      rintro rfl
      cases hfull
    exact putAll_pairLeaves hbuilds hkeys hdistinct (t := .null) (m := ∅) rfl (fun _ _ => rfl)
      (Or.inl hne)

/-! ### There and back -/

/-- The tree of properties has each of them put at the path that its key spells out. -/
theorem ofProperties_eq_putAll (properties : List (String × String)) :
    Tree.ofProperties properties = Tree.putAll (properties.map spell) (.record []) := by
  rw [Tree.ofProperties, Tree.putAll, List.foldl_map]
  rfl

/-- The properties of a mapping as paths are the leaves of the mapping. -/
theorem map_spell_flatten_mapping {pairs : List (Value × Value)} (h : (Value.mapping pairs).Plain) :
    ((Value.mapping pairs).flatten "").map spell = (Value.mapping pairs).leaves := by
  refine (h.map_spell_flatten .whole (Or.inr ⟨pairs, rfl⟩)).trans ?_
  exact List.map_id _

/-- The names of the properties of a mapping are all different. -/
theorem nodup_flatten_mapping {pairs : List (Value × Value)} (h : (Value.mapping pairs).Plain) :
    (((Value.mapping pairs).flatten "").map Prod.fst).Nodup := by
  have hleaves : (((Value.mapping pairs).flatten "").map spell).Pairwise
      fun a b => Apart a.1 b.1 := by
    rw [map_spell_flatten_mapping h]
    exact h.pairwise_leaves
  rw [List.pairwise_map] at hleaves
  refine List.pairwise_map.mpr (hleaves.imp fun {a b} hapart hname => ?_)
  exact hapart.ne (congrArg pathOf hname)

/-- The leaves of a mapping build it up also from an empty record. -/
theorem putAll_leaves_mapping {pairs : List (Value × Value)} (h : (Value.mapping pairs).Plain) :
    Tree.putAll (Value.mapping pairs).leaves (.record []) = (Value.mapping pairs).tree := by
  cases h with
  | scalar h => cases h
  | mapping hkeys hdistinct hfull h =>
    have hbuilds : ∀ p ∈ pairs, Builds p.2 := fun p hp => (h p hp).builds (hfull p hp)
    exact putAll_pairLeaves hbuilds hkeys hdistinct (m := ∅) rfl (fun _ _ => rfl) (Or.inr rfl)

/-- **Flattened values arranged again.** The tree of the properties of a mapping is the mapping,
with the texts of its scalars. -/
theorem ofSnapshot_flattenAll {pairs : List (Value × Value)} (h : (Value.mapping pairs).Plain)
    (versions : SortedMap ObjectKey String) :
    Tree.ofSnapshot ⟨flattenAll [.mapping pairs], versions⟩ "" = (Value.mapping pairs).tree := by
  have hperm : (flattenAll [.mapping pairs]).entries.Perm ((Value.mapping pairs).flatten "") := by
    have hall : flattenAll [.mapping pairs] = .ofList ((Value.mapping pairs).flatten "") := by
      rw [flattenAll, List.flatMap_singleton]
    rw [hall]
    exact SortedMap.entries_ofList_perm (nodup_flatten_mapping h)
  have hleaves : ((flattenAll [.mapping pairs]).entries.map spell).Perm
      (Value.mapping pairs).leaves := by
    rw [← map_spell_flatten_mapping h]
    exact hperm.map spell
  calc Tree.ofSnapshot ⟨flattenAll [.mapping pairs], versions⟩ ""
      = Tree.putAll ((flattenAll [.mapping pairs]).entries.map spell) (.record []) :=
        ofProperties_eq_putAll _
    _ = Tree.putAll (Value.mapping pairs).leaves (.record []) :=
        (Tree.putAll_perm hleaves.symm h.pairwise_leaves _).symm
    _ = (Value.mapping pairs).tree := putAll_leaves_mapping h

/-- A mapping with keys of several kinds, whose sequence is so long that the order of the names of
its items is not that of the items. -/
def pool : List (Value × Value) :=
  [(.text "hosts", .sequence (List.replicate 11 (.mapping [(.number (.natural 80), .text "up")]))),
    (.bool true, .null),
    (.text "grid", .sequence [.sequence [.number (.natural 1)], .sequence [.bool false, .text ""]])]

theorem ofSnapshot_flattenAll_pool :
    (Value.mapping pool).Plain ∧
      Tree.ofSnapshot ⟨flattenAll [.mapping pool], ∅⟩ "" = .record
        [("grid", .list [.list [.text "1"], .list [.text "false", .text ""]]),
          ("hosts", .list (List.replicate 11 (.record [("80", .text "up")]))),
          ("true", .text "")] := by
  have hup : (Value.mapping [(.number (.natural 80), .text "up")]).Plain := by
    refine .mapping ?_ (by simp) (by simp [Value.isVacant]) ?_
    · simp only [List.mem_singleton, forall_eq]
      exact ⟨"80", by rfl, by decide, by decide, by decide⟩
    · simp only [List.mem_singleton, forall_eq]
      exact .scalar rfl
  have hhosts : (Value.sequence
      (List.replicate 11 (.mapping [(.number (.natural 80), .text "up")]))).Plain := by
    refine .sequence (by decide) ?_ ?_ <;> intro v hv <;> rw [List.eq_of_mem_replicate hv]
    · rfl
    · exact hup
  have hgrid : (Value.sequence
      [.sequence [.number (.natural 1)], .sequence [.bool false, .text ""]]).Plain := by
    refine .sequence (by decide) (by simp [Value.isVacant]) ?_
    simp only [List.mem_cons, List.not_mem_nil, or_false, forall_eq_or_imp, forall_eq]
    constructor <;> refine .sequence (by decide) (by simp [Value.isVacant]) ?_ <;>
      simp only [List.mem_cons, List.not_mem_nil, or_false, forall_eq_or_imp, forall_eq]
    · exact .scalar rfl
    · exact ⟨.scalar rfl, .scalar rfl⟩
  have hpool : (Value.mapping pool).Plain := by
    refine .mapping ?_ (by decide) (by simp [pool, Value.isVacant]) ?_ <;>
      simp only [pool, List.mem_cons, List.not_mem_nil, or_false, forall_eq_or_imp, forall_eq]
    · exact ⟨⟨"hosts", rfl, by decide, by decide, by decide⟩,
        ⟨"true", rfl, by decide, by decide, by decide⟩,
        ⟨"grid", rfl, by decide, by decide, by decide⟩⟩
    · exact ⟨hhosts, .scalar rfl, hgrid⟩
  exact ⟨hpool, (ofSnapshot_flattenAll hpool ∅).trans (by rfl)⟩

end Yaml

end LiveConfig
