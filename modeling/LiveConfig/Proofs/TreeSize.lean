import LiveConfig.Proofs.KeySpellings

/-!
# How large a tree may become

A key can spell out an index that no other property comes near, and the list that it names is made
up to that length with nulls. Still no key makes a tree huge. A step of a path adds no more nodes
than it asks for (`Binding.Segment.room`): one for a field, and for an item as many as a list needs
to have that item. Indices end below a limit, so there is a limit to what a step can ask for.
Whatever is in the way of a path is taken out, which adds nothing.

Nothing is put into a tree without something in it, so the only list or record that may be empty is
the tree of no properties.

## Main definitions

* `Binding.Tree.size` — how many nodes a tree has
* `Binding.Tree.Occurs` — a tree stands somewhere in another one
* `Binding.Tree.Filled` — no record or list in a tree is empty, and no list too long
* `Binding.Segment.room` — how many nodes a step may ask for

## Main results

* `Binding.Tree.size_put` — a text put into a tree adds the nodes that its path asks for
* `Binding.Tree.Filled.put` — a text put into a tree leaves nothing empty and no list too long
* `Binding.Tree.ofSnapshot_limited` — the limits of the tree of any properties
-/

namespace LiveConfig

namespace Binding

/-! ### Counting nodes -/

namespace Tree

mutual

/-- How many nodes a tree has: records, lists, texts and nulls. -/
def size : Tree → Nat
  | .null => 1
  | .text _ => 1
  | .list ts => 1 + itemsSize ts
  | .record fs => 1 + fieldsSize fs

/-- How many nodes the items of a list have. -/
def itemsSize : List Tree → Nat
  | [] => 0
  | t :: ts => t.size + itemsSize ts

/-- How many nodes the fields of a record have. -/
def fieldsSize : List (String × Tree) → Nat
  | [] => 0
  | (_, t) :: fs => t.size + fieldsSize fs

end

theorem size_pos (t : Tree) : 0 < t.size := by
  cases t <;> rw [size] <;> omega

/-- The items of a tree are counted among its nodes, of which it has one more at least. -/
theorem itemsSize_lt (t : Tree) : itemsSize t.items < t.size := by
  cases t with
  | list ts => simp [size]
  | _ => exact size_pos _

theorem fieldsSize_lt (t : Tree) : fieldsSize t.fields < t.size := by
  cases t with
  | record fs => simp [size]
  | _ => exact size_pos _

theorem itemsSize_append (ts us : List Tree) :
    itemsSize (ts ++ us) = itemsSize ts + itemsSize us := by
  induction ts with
  | nil => simp [itemsSize]
  | cons t ts ih =>
    rw [List.cons_append, itemsSize, itemsSize, ih]
    omega

theorem itemsSize_replicate_null (n : Nat) : itemsSize (List.replicate n .null) = n := by
  induction n with
  | zero => rfl
  | succ n ih =>
    rw [List.replicate_succ, itemsSize, ih, size]
    omega

theorem itemsSize_pad_le (n : Nat) (ts : List Tree) : itemsSize (pad n ts) ≤ itemsSize ts + n := by
  rw [pad, itemsSize_append, itemsSize_replicate_null]
  omega

/-- An item put in the place of another one makes the difference of the two. -/
theorem itemsSize_set {ts : List Tree} {i : Nat} (hi : i < ts.length) (c : Tree) :
    itemsSize (ts.set i c) + (ts.getD i .null).size = itemsSize ts + c.size := by
  induction ts generalizing i with
  | nil => cases hi
  | cons t ts ih =>
    cases i with
    | zero =>
      rw [List.set_cons_zero, List.getD_cons_zero, itemsSize, itemsSize]
      omega
    | succ i =>
      have hrest := ih (Nat.lt_of_succ_lt_succ hi)
      rw [List.set_cons_succ, List.getD_cons_succ, itemsSize, itemsSize]
      omega

/-- A field put into a record makes the difference to the one of the same name, if there is one. -/
theorem fieldsSize_insertEntry {fs : List (String × Tree)}
    (h : fs.Pairwise fun a b => compare a.1 b.1 = .lt) (name : String) (c : Tree) :
    fieldsSize (SortedMap.insertEntry name c fs) +
        ((SortedMap.lookup name fs).map size).getD 0 = fieldsSize fs + c.size := by
  induction fs with
  | nil =>
    rw [SortedMap.insertEntry, SortedMap.lookup, fieldsSize]
    simp [fieldsSize]
  | cons e fs ih =>
    obtain ⟨name', t⟩ := e
    obtain ⟨hfirst, hrest⟩ := List.pairwise_cons.mp h
    rw [SortedMap.insertEntry, SortedMap.lookup]
    cases hname : compare name name' with
    | lt =>
      have hnone : SortedMap.lookup name fs = none :=
        SortedMap.lookup_eq_none_of_lt fun e he => Std.TransCmp.lt_trans hname (hfirst e he)
      simp [hnone, fieldsSize]
      omega
    | eq =>
      simp [fieldsSize]
      omega
    | gt =>
      have hih := ih hrest
      simp only [fieldsSize, reduceCtorEq, if_false]
      omega

end Tree

/-- How many nodes a step may ask for: one for a field, and for an item one for every item up to
it. -/
def Segment.room : Segment → Nat
  | .field _ => 1
  | .index i => i + 1

namespace Tree

theorem Ordered.ascending_fields {t : Tree} (h : t.Ordered) :
    t.fields.Pairwise fun a b => compare a.1 b.1 = .lt := by
  cases h with
  | record hascending h => exact hascending
  | _ => exact .nil

/-- What is put where a step leads takes the place of what was there, and what else it adds is no
more than the step asks for. -/
theorem size_withPart {t : Tree} (h : t.Ordered) (s : Segment) (c : Tree) :
    (withPart s c t).size + (part s t).size ≤ t.size + c.size + s.room := by
  cases s with
  | field name =>
    have hfields := fieldsSize_insertEntry h.ascending_fields name c
    have hlt := t.fieldsSize_lt
    rw [withPart, part, size, Segment.room]
    cases hlookup : SortedMap.lookup name t.fields with
    | none =>
      rw [hlookup] at hfields
      simp only [Option.map_none, Option.getD_none, size] at hfields ⊢
      omega
    | some x =>
      rw [hlookup] at hfields
      simp only [Option.map_some, Option.getD_some] at hfields ⊢
      omega
  | index i =>
    have hi : i < (pad (i + 1) t.items).length := by
      simp [pad]
      omega
    have hset := itemsSize_set hi c
    have hpad := itemsSize_pad_le (i + 1) t.items
    have hlt := t.itemsSize_lt
    rw [getD_pad] at hset
    rw [withPart, part, size, Segment.room]
    omega

/-- **A text put into a tree** adds at most so many nodes for each step of its path as a step may
ask for. -/
theorem size_put {limit : Nat} {t : Tree} (h : t.Ordered) (v : String) {p : List Segment}
    (hp : ∀ s ∈ p, s.room ≤ limit) : (t.put v p).size ≤ t.size + limit * p.length := by
  induction p generalizing t with
  | nil =>
    rw [put]
    split
    · exact Nat.le_add_right _ _
    · exact Nat.le_add_right_of_le t.size_pos
  | cons s p ih =>
    obtain ⟨hs, hp⟩ := List.forall_mem_cons.mp hp
    have hwith := size_withPart h s ((part s t).put v p)
    have hpart := ih (h.part s) hp
    rw [put_cons, List.length_cons, Nat.mul_add_one]
    omega

/-! ### Nothing empty, and no list too long -/

/-- No record or list in a tree is empty, and no list has more items than lists may have. -/
inductive Filled : Tree → Prop
  | null : Filled .null
  | text (s : String) : Filled (.text s)
  | list {ts : List Tree} (hne : ts ≠ []) (hlength : ts.length ≤ listLimit)
      (h : ∀ t ∈ ts, Filled t) : Filled (.list ts)
  | record {fs : List (String × Tree)} (hne : fs ≠ []) (h : ∀ e ∈ fs, Filled e.2) :
      Filled (.record fs)

/-- A tree stands in another one, at its top or anywhere below. -/
inductive Occurs : Tree → Tree → Prop
  | top (t : Tree) : Occurs t t
  | item {x t : Tree} {ts : List Tree} (ht : t ∈ ts) (h : Occurs x t) : Occurs x (.list ts)
  | field {x : Tree} {e : String × Tree} {fs : List (String × Tree)} (he : e ∈ fs)
      (h : Occurs x e.2) : Occurs x (.record fs)

theorem Occurs.filled {x t : Tree} (h : Occurs x t) (ht : t.Filled) : x.Filled := by
  induction h with
  | top => exact ht
  | item hmem h ih =>
    cases ht with
    | list hne hlength hitems => exact ih (hitems _ hmem)
  | field hmem h ih =>
    cases ht with
    | record hne hfields => exact ih (hfields _ hmem)

/-- What a tree consists of below its top is filled. The tree itself may be empty. -/
structure FilledBelow (t : Tree) : Prop where
  fields : ∀ e ∈ t.fields, e.2.Filled
  items : ∀ x ∈ t.items, x.Filled
  length_le : t.items.length ≤ listLimit

theorem Filled.filledBelow {t : Tree} (h : t.Filled) : t.FilledBelow := by
  cases h with
  | list hne hlength h => exact ⟨List.forall_mem_nil _, h, hlength⟩
  | record hne h => exact ⟨h, List.forall_mem_nil _, Nat.zero_le _⟩
  | _ => exact ⟨List.forall_mem_nil _, List.forall_mem_nil _, Nat.zero_le _⟩

namespace FilledBelow

variable {t : Tree}

theorem part (h : t.FilledBelow) (s : Segment) : (part s t).Filled := by
  cases s with
  | field name =>
    rw [Tree.part]
    cases hlookup : SortedMap.lookup name t.fields with
    | none => exact .null
    | some x => exact h.fields _ (SortedMap.mem_of_lookup hlookup)
  | index i =>
    rw [Tree.part, List.getD_eq_getElem?_getD]
    cases hget : t.items[i]? with
    | none => exact .null
    | some x => exact h.items x (List.mem_of_getElem? hget)

theorem withPart (h : t.FilledBelow) {s : Segment} (hs : s.room ≤ listLimit) {c : Tree}
    (hc : c.Filled) : (withPart s c t).Filled := by
  cases s with
  | field name =>
    have hmem := SortedMap.mem_of_lookup (child?_withPart_self (.field name) c t)
    refine .record (List.ne_nil_of_mem hmem) fun e he => ?_
    rcases SortedMap.mem_insertEntry he with rfl | he
    · exact hc
    · exact h.fields e he
  | index i =>
    have hlength : ((pad (i + 1) t.items).set i c).length = max t.items.length (i + 1) := by
      simp [pad]
      omega
    refine .list (List.ne_nil_of_length_pos (by omega)) ?_ fun x hx => ?_
    · rw [hlength]
      exact max_le h.length_le hs
    · rcases List.mem_or_eq_of_mem_set hx with hx | rfl
      · rcases List.mem_append.mp hx with hx | hx
        · exact h.items x hx
        · rw [List.eq_of_mem_replicate hx]
          exact .null
      · exact hc

end FilledBelow

/-- **A text put into a tree** leaves no record or list empty, and no list too long. -/
theorem Filled.put {t : Tree} (h : t.Filled) (v : String) {p : List Segment}
    (hp : ∀ s ∈ p, s.room ≤ listLimit) : (t.put v p).Filled := by
  induction p generalizing t with
  | nil =>
    rw [Tree.put]
    split
    · exact h
    · exact .text v
  | cons s p ih =>
    obtain ⟨hs, hp⟩ := List.forall_mem_cons.mp hp
    rw [put_cons]
    exact h.filledBelow.withPart hs (ih (h.filledBelow.part s) hp)

end Tree

/-! ### Trees of properties -/

/-- A step of the path of a key asks for no more nodes than a list may have. -/
theorem room_le_of_mem_pathOf {key : String} {s : Segment} (h : s ∈ pathOf key) :
    s.room ≤ listLimit := by
  obtain ⟨part, -, hs⟩ := List.mem_flatMap.mp h
  obtain ⟨name, is, hpart, hlt⟩ := exists_segmentsOf_eq part
  rw [hpart] at hs
  rcases List.mem_cons.mp hs with rfl | hs
  · exact (by decide : 1 ≤ listLimit)
  · obtain ⟨i, hi, rfl⟩ := List.mem_map.mp hs
    exact hlt i hi

namespace Tree

/-- The tree of properties is a record, and everything below its top is filled. -/
theorem exists_ofProperties_eq (l : List (String × String)) :
    ∃ fs, ofProperties l = .record fs ∧ ∀ e ∈ fs, e.2.Filled := by
  induction l using List.reverseRecOn with
  | nil => exact ⟨[], rfl, List.forall_mem_nil _⟩
  | append_singleton l e ih =>
    obtain ⟨fs, hfs, hfilled⟩ := ih
    obtain ⟨name, p, hpath⟩ := pathOf_eq_cons e.1
    have hbelow : (ofProperties l).FilledBelow := by
      rw [hfs]
      exact ⟨hfilled, List.forall_mem_nil _, Nat.zero_le _⟩
    have hroom : ∀ s ∈ Segment.field name :: p, s.room ≤ listLimit :=
      fun s hs => room_le_of_mem_pathOf (hpath ▸ hs)
    obtain ⟨hfirst, hp⟩ := List.forall_mem_cons.mp hroom
    have hput := hbelow.withPart hfirst ((hbelow.part (.field name)).put e.2 hp)
    rw [ofProperties_concat, hpath, put_cons]
    exact ⟨_, rfl, hput.filledBelow.fields⟩

/-- The tree of properties has at most so many nodes for each step of their paths as a list may
have items. -/
theorem size_ofProperties (l : List (String × String)) :
    (ofProperties l).size ≤ 1 + listLimit * (l.flatMap fun e => pathOf e.1).length := by
  induction l using List.reverseRecOn with
  | nil => exact Nat.le_refl 1
  | append_singleton l e ih =>
    have hroom : ∀ s ∈ pathOf e.1, s.room ≤ listLimit := fun s => room_le_of_mem_pathOf
    have hput := size_put (ordered_ofProperties l) e.2 hroom
    rw [ofProperties_concat, List.flatMap_append, List.flatMap_singleton, List.length_append,
      Nat.mul_add]
    omega

/-- **No key can force a huge tree.** The tree of the properties under a qualifier is a record. Each
list in it has at least one item and at most 1024, no record below the top is empty, and there are
at most 1024 nodes for each step of the paths of the properties, and one for the top. -/
theorem ofSnapshot_limited (s : Snapshot) (qualifier : String) :
    ∃ fs, ofSnapshot s qualifier = .record fs ∧
      (∀ ts, Occurs (.list ts) (.record fs) → 1 ≤ ts.length ∧ ts.length ≤ 1024) ∧
      (∀ e ∈ fs, ¬ Occurs (.record []) e.2) ∧
      (ofSnapshot s qualifier).size ≤
        1 + 1024 * ((s.bound qualifier).flatMap fun e => pathOf e.1).length := by
  obtain ⟨fs, hfs, hfilled⟩ := exists_ofProperties_eq (s.bound qualifier)
  refine ⟨fs, hfs, fun ts hts => ?_, fun e he hempty => ?_, size_ofProperties _⟩
  · cases hts with
    | field he h =>
      cases h.filled (hfilled _ he) with
      | list hne hlength h => exact ⟨List.length_pos_iff.mpr hne, hlength⟩
  · cases hempty.filled (hfilled e he) with
    | record hne h => exact hne rfl

/-- Properties with a text in the way of a record, and the record in the way of a list. -/
def crowded : Snapshot := ⟨.ofList [("a", "0"), ("a.b[2]", "1"), ("a[1][0]", "2")], ∅⟩

theorem ofSnapshot_limited_crowded :
    ofSnapshot crowded "" = .record [("a", .list [.null, .list [.text "2"]])] ∧
      (ofSnapshot crowded "").size = 5 ∧ (ofSnapshot crowded "").size ≤ 1 + 1024 * 7 := by
  have hsteps : ((crowded.bound "").flatMap fun e => pathOf e.1).length = 7 := by decide
  have htree : ofSnapshot crowded "" = .record [("a", .list [.null, .list [.text "2"]])] := rfl
  obtain ⟨fs, -, -, -, hsize⟩ := ofSnapshot_limited crowded ""
  rw [hsteps] at hsize
  exact ⟨htree, by rw [htree]; rfl, hsize⟩

end Tree

end Binding

end LiveConfig
