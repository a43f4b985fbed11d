import LiveConfig.Proofs.PropertyTree

/-!
# What stands at a path of a tree

A text put at a path changes what stands at that path and on the way to it. Of other paths there are
three kinds. At a path that parts ways with it everything stays as it was; at one that wants a
record where the other wants a list, or the other way round, nothing is left; and a path that ends
on the way to it, or at it, is not touched if something stands there already that can be gone
through. This is all that the statements about whole trees need to know about putting.

## Main definitions

* `Binding.Clash` — two paths go the same way up to a place where one wants a record, one a list
* `Binding.Tree.at?` — what stands at a path
* `Binding.Tree.Ordered` — in every record of a tree the names of the fields ascend

## Main results

* `Binding.Tree.at?_put_append` — what stands on the way to a text that was put
* `Binding.Tree.at?_put_elsewhere` — what stands elsewhere stood there before, or is an item
  that makes up the length of a list
* `Binding.Tree.at?_put_of_stays` — what stays where it is
* `Binding.Tree.Ordered.put` — putting keeps the fields in order
-/

namespace LiveConfig

namespace Binding

/-- Two paths go the same way for some steps, and then one of them leads to a field and the other
one to an item. -/
inductive Clash : List Segment → List Segment → Prop
  | fieldItem (name : String) (i : Nat) (p q : List Segment) :
      Clash (.field name :: p) (.index i :: q)
  | itemField (i : Nat) (name : String) (p q : List Segment) :
      Clash (.index i :: p) (.field name :: q)
  | behind (s : Segment) {p q : List Segment} (h : Clash p q) : Clash (s :: p) (s :: q)

/-- No path clashes with itself. -/
theorem Clash.ne {p q : List Segment} (h : Clash p q) : p ≠ q := by
  induction h with
  | fieldItem name i p q => exact nofun
  | itemField i name p q => exact nofun
  | behind s h ih => exact fun he => ih (List.cons.inj he).2

/-- Two steps are the same, lead beside each other, or are of different kinds. -/
theorem Segment.eq_or_beside {s s' : Segment} {p q : List Segment}
    (h : ¬ Clash (s :: p) (s' :: q)) : s = s' ∨ s.Beside s' := by
  cases s with
  | field a =>
    cases s' with
    | field b =>
      by_cases hab : a = b
      · exact Or.inl (congrArg _ hab)
      · exact Or.inr (.fields hab)
    | index j => exact absurd (.fieldItem a j p q) h
  | index i =>
    cases s' with
    | field b => exact absurd (.itemField i b p q) h
    | index j =>
      by_cases hij : i = j
      · exact Or.inl (congrArg _ hij)
      · exact Or.inr (.items hij)

namespace Tree

/-! ### One step -/

/-- What a step leads to, if it leads to anything. -/
def child? : Segment → Tree → Option Tree
  | .field name, .record fs => SortedMap.lookup name fs
  | .index i, .list ts => ts[i]?
  | _, _ => none

/-- What stands at a path, if anything does. -/
def at? : List Segment → Tree → Option Tree
  | [], t => some t
  | s :: p, t => (child? s t).bind (at? p)

theorem child?_null (s : Segment) : child? s .null = none := by
  cases s <;> rfl

theorem part_eq (s : Segment) (t : Tree) : part s t = (child? s t).getD .null := by
  cases s with
  | field name => cases t <;> rfl
  | index i =>
    cases t with
    | list ts => exact List.getD_eq_getElem?_getD
    | _ => rfl

theorem child?_withPart_self (s : Segment) (c t : Tree) : child? s (withPart s c t) = some c := by
  cases s with
  | field name =>
    simp only [child?, withPart, SortedMap.lookup_insertEntry, Std.ReflCmp.compare_self, if_true]
  | index i =>
    refine List.getElem?_set_self ?_
    simp [pad]
    omega

/-- What a step leads to is not touched by what is put beside it. -/
theorem child?_withPart_of_beside {s s' : Segment} (h : s.Beside s') {t x : Tree}
    (hx : child? s t = some x) (c : Tree) : child? s (withPart s' c t) = some x := by
  cases h with
  | @fields a b h =>
    cases t with
    | record fs =>
      have hne : compare a b ≠ .eq := fun he => h (Std.LawfulEqCmp.eq_of_compare he)
      rw [withPart, child?, SortedMap.lookup_insertEntry, if_neg hne]
      exact hx
    | _ => cases hx
  | @items i j h =>
    cases t with
    | list ts =>
      obtain ⟨hi, -⟩ := List.getElem?_eq_some_iff.mp hx
      rw [withPart, items_list, child?, List.getElem?_set_ne h.symm, pad,
        List.getElem?_append_left hi]
      exact hx
    | _ => cases hx

/-- What another step leads to after something was put at one was there before, or makes up the
length of a list. -/
theorem child?_of_withPart {s s' : Segment} (hne : s ≠ s') {c t x : Tree}
    (h : child? s (withPart s' c t) = some x) :
    child? s t = some x ∨ x = .null ∧ ∃ i, s = .index i := by
  cases s' with
  | field b =>
    cases s with
    | field a =>
      have hab : compare a b ≠ .eq := fun he =>
        hne (congrArg Segment.field (Std.LawfulEqCmp.eq_of_compare he))
      rw [withPart, child?, SortedMap.lookup_insertEntry, if_neg hab] at h
      cases t with
      | record fs => exact Or.inl h
      | _ => cases h
    | index i => cases h
  | index j =>
    cases s with
    | field a => cases h
    | index i =>
      have hij : j ≠ i := fun he => hne (congrArg Segment.index he.symm)
      rw [withPart, child?, List.getElem?_set_ne hij, pad] at h
      rcases Nat.lt_or_ge i t.items.length with hi | hi
      · rw [List.getElem?_append_left hi] at h
        cases t with
        | list ts => exact Or.inl h
        | _ => exact absurd hi (Nat.not_lt_zero i)
      · rw [List.getElem?_append_right hi, List.getElem?_replicate] at h
        split at h
        · exact Or.inr ⟨(Option.some.inj h).symm, i, rfl⟩
        · cases h

/-! ### Whole paths -/

@[simp] theorem at?_nil (t : Tree) : at? [] t = some t := rfl

theorem at?_cons (s : Segment) (p : List Segment) (t : Tree) :
    at? (s :: p) t = (child? s t).bind (at? p) := rfl

theorem at?_append (p q : List Segment) (t : Tree) :
    at? (p ++ q) t = (at? p t).bind (at? q) := by
  induction p generalizing t with
  | nil => rfl
  | cons s p ih =>
    rw [List.cons_append, at?_cons, at?_cons]
    cases child? s t with
    | none => rfl
    | some c => exact ih c

/-- What a step leads out of is a record or list with something in it. -/
theorem isPopulated_of_child? {s : Segment} {t c : Tree} (h : child? s t = some c) :
    t.isPopulated = true := by
  cases s with
  | field name =>
    cases t with
    | record fs =>
      cases fs with
      | nil => cases h
      | cons e fs => rfl
    | _ => cases h
  | index i =>
    cases t with
    | list ts =>
      cases ts with
      | nil => cases h
      | cons t ts => rfl
    | _ => cases h

theorem isPopulated_of_at?_cons {s : Segment} {p : List Segment} {t x : Tree}
    (h : at? (s :: p) t = some x) : t.isPopulated = true := by
  obtain ⟨c, hc, -⟩ := Option.bind_eq_some_iff.mp h
  exact isPopulated_of_child? hc

theorem isPopulated_put_cons (v : String) (s : Segment) (p : List Segment) (t : Tree) :
    (t.put v (s :: p)).isPopulated = true := by
  rw [put_cons]
  exact isPopulated_of_child? (child?_withPart_self s _ t)

/-- At a record or list with something in it no text is put. -/
theorem put_nil_of_isPopulated {t : Tree} (h : t.isPopulated = true) (v : String) :
    t.put v [] = t := if_pos h

/-- **On the way to a text** that was put stands what stood there, with the text put at the rest of
the path. -/
theorem at?_put_append (v : String) (p q : List Segment) (t : Tree) :
    at? p (t.put v (p ++ q)) = some (((at? p t).getD .null).put v q) := by
  induction p generalizing t with
  | nil => rfl
  | cons s p ih =>
    rw [List.cons_append, put_cons, at?_cons, child?_withPart_self, Option.bind_some, ih, at?_cons,
      part_eq]
    cases child? s t with
    | none => cases p <;> simp [at?_cons, child?_null]
    | some c => rfl

/-- **What stands elsewhere** stood there before, or is an item that makes up the length of a
list. -/
theorem at?_put_elsewhere {p q : List Segment} (hpq : ¬ p <+: q) {v : String} {t x : Tree}
    (h : at? p (t.put v q) = some x) :
    at? p t = some x ∨ x = .null ∧ ∃ p' i, p = p' ++ [.index i] := by
  induction p generalizing q t with
  | nil => exact absurd List.nil_prefix hpq
  | cons s p ih =>
    cases q with
    | nil =>
      rw [put] at h
      split at h
      · exact Or.inl h
      · cases s <;> cases h
    | cons s' q =>
      rw [put_cons] at h
      by_cases hs : s = s'
      · subst hs
        have hrest : ¬ p <+: q := fun hp => hpq (List.cons_prefix_cons.mpr ⟨rfl, hp⟩)
        rw [at?_cons, child?_withPart_self, Option.bind_some] at h
        rcases ih hrest h with h | ⟨hx, p', i, rfl⟩
        · rw [part_eq] at h
          rw [at?_cons]
          cases hc : child? s t with
          | none =>
            rw [hc] at h
            cases p with
            | nil => exact absurd List.nil_prefix hrest
            | cons s' p => simp [at?_cons, child?_null] at h
          | some c =>
            rw [hc] at h
            exact Or.inl h
        · exact Or.inr ⟨hx, s :: p', i, rfl⟩
      · obtain ⟨c, hc, hx⟩ := Option.bind_eq_some_iff.mp h
        rcases child?_of_withPart hs hc with hc | ⟨rfl, i, rfl⟩
        · exact Or.inl (Option.bind_eq_some_iff.mpr ⟨c, hc, hx⟩)
        · cases p with
          | nil => exact Or.inr ⟨(Option.some.inj hx).symm, [], i, rfl⟩
          | cons s p => simp [at?_cons, child?_null] at hx

/-- **What stays where it is**: a text put at a path that neither leads through this one nor
clashes with it takes nothing away. At the path itself this needs something that can be gone
through. -/
theorem at?_put_of_stays {p q : List Segment} (hclash : ¬ Clash p q) {t x : Tree}
    (h : at? p t = some x) (hlead : p <+: q → p = q ∧ x.isPopulated = true) (v : String) :
    at? p (t.put v q) = some x := by
  induction p generalizing q t with
  | nil =>
    obtain ⟨rfl, hx⟩ := hlead List.nil_prefix
    obtain rfl := Option.some.inj h
    rw [put_nil_of_isPopulated hx, at?_nil]
  | cons s p ih =>
    cases q with
    | nil => rwa [put_nil_of_isPopulated (isPopulated_of_at?_cons h)]
    | cons s' q =>
      obtain ⟨c, hc, hx⟩ := Option.bind_eq_some_iff.mp h
      rw [put_cons]
      rcases Segment.eq_or_beside hclash with rfl | hbeside
      · have hpart : part s t = c := by rw [part_eq, hc, Option.getD_some]
        rw [at?_cons, child?_withPart_self, Option.bind_some, hpart]
        refine ih (fun hbehind => hclash (.behind s hbehind)) hx fun hp => ?_
        obtain ⟨heq, hpopulated⟩ := hlead (List.cons_prefix_cons.mpr ⟨rfl, hp⟩)
        exact ⟨(List.cons.inj heq).2, hpopulated⟩
      · rw [at?_cons, child?_withPart_of_beside hbeside hc, Option.bind_some, hx]

/-! ### The order of fields -/

/-- In every record of a tree the names of the fields ascend, so that none is repeated. -/
inductive Ordered : Tree → Prop
  | null : Ordered .null
  | text (s : String) : Ordered (.text s)
  | list {ts : List Tree} (h : ∀ t ∈ ts, Ordered t) : Ordered (.list ts)
  | record {fs : List (String × Tree)} (hascending : fs.Pairwise fun a b => compare a.1 b.1 = .lt)
      (h : ∀ e ∈ fs, Ordered e.2) : Ordered (.record fs)

namespace Ordered

theorem child? {t : Tree} (h : t.Ordered) {s : Segment} {c : Tree} (hc : child? s t = some c) :
    c.Ordered := by
  cases s with
  | field name =>
    cases h with
    | record hascending h => exact h _ (SortedMap.mem_of_lookup hc)
    | _ => cases hc
  | index i =>
    cases h with
    | list h => exact h _ (List.mem_of_getElem? hc)
    | _ => cases hc

theorem at? {t : Tree} (h : t.Ordered) {p : List Segment} {x : Tree} (hx : at? p t = some x) :
    x.Ordered := by
  induction p generalizing t with
  | nil =>
    obtain rfl := Option.some.inj hx
    exact h
  | cons s p ih =>
    obtain ⟨c, hc, hx⟩ := Option.bind_eq_some_iff.mp hx
    exact ih (h.child? hc) hx

/-- What a record has as a field stands where the field leads to. -/
theorem at?_field {t : Tree} (h : t.Ordered) {p : List Segment} {fs : List (String × Tree)}
    (hfs : t.at? p = some (.record fs)) {e : String × Tree} (he : e ∈ fs) :
    t.at? (p ++ [.field e.1]) = some e.2 := by
  cases h.at? hfs with
  | record hascending h =>
    rw [at?_append, hfs, Option.bind_some, at?_cons, Tree.child?,
      SortedMap.lookup_of_mem hascending he]
    rfl

theorem part {t : Tree} (h : t.Ordered) (s : Segment) : (part s t).Ordered := by
  rw [part_eq]
  cases hc : Tree.child? s t with
  | none => exact .null
  | some c => exact h.child? hc

theorem withPart {t c : Tree} (h : t.Ordered) (hc : c.Ordered) (s : Segment) :
    (withPart s c t).Ordered := by
  cases s with
  | field name =>
    have hfields : t.fields.Pairwise (fun a b => compare a.1 b.1 = .lt) ∧
        ∀ e ∈ t.fields, e.2.Ordered := by
      cases h with
      | record hascending h => exact ⟨hascending, h⟩
      | _ => exact ⟨.nil, List.forall_mem_nil _⟩
    refine .record (SortedMap.ascending_insertEntry _ _ hfields.1) fun e he => ?_
    rcases SortedMap.mem_insertEntry he with rfl | he
    · exact hc
    · exact hfields.2 e he
  | index i =>
    have hitems : ∀ x ∈ t.items, x.Ordered := by
      cases h with
      | list h => exact h
      | _ => exact List.forall_mem_nil _
    refine .list fun x hx => ?_
    rcases List.mem_or_eq_of_mem_set hx with hx | rfl
    · rcases List.mem_append.mp hx with hx | hx
      · exact hitems x hx
      · rw [List.eq_of_mem_replicate hx]
        exact .null
    · exact hc

/-- **Putting a text keeps the fields in order.** -/
theorem put {t : Tree} (h : t.Ordered) (v : String) (p : List Segment) : (t.put v p).Ordered := by
  induction p generalizing t with
  | nil =>
    rw [Tree.put]
    split
    · exact h
    · exact .text v
  | cons s p ih =>
    rw [put_cons]
    exact h.withPart (ih (h.part s)) s

end Ordered

end Tree

end Binding

end LiveConfig
