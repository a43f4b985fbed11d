import LiveConfig.Binding.Tree
import LiveConfig.Proofs.SortedMap
import Mathlib.Data.List.Pairwise

/-!
# Texts put into a tree

Putting a text at a path changes one part of a tree, and of that one part, down to the end of the
path. What happens at a step is the same for fields and for items: the part that the step leads to
is taken out, changed, and put back (`Tree.part`, `Tree.withPart`), and what is put at one step does
not show at another one of its kind.

So texts at paths that part ways can be put in any order. This is what makes it harmless that
properties come in the order of their keys, in which `a[10]` stands before `a[2]`.

## Main definitions

* `Binding.Apart` — two paths part ways, with neither in the way of the other
* `Binding.Tree.part`, `Binding.Tree.withPart` — what a step leads to, and a tree with something
  else there
* `Binding.Tree.putAll` — texts put at their paths one after the other

## Main results

* `Binding.Apart.put_comm` — texts at paths that part ways can be put in either order
* `Binding.Tree.putAll_perm` — any number of them can be put in any order
* `Binding.Tree.putAll_behind` — texts behind one step are put into the part that it leads to
-/

namespace LiveConfig

namespace Binding

/-- Two steps lead to different fields of a record, or to different items of a list. -/
inductive Segment.Beside : Segment → Segment → Prop
  | fields {a b : String} (h : a ≠ b) : Beside (.field a) (.field b)
  | items {i j : Nat} (h : i ≠ j) : Beside (.index i) (.index j)

/-- Two paths go the same way for some steps, and then on to different fields of a record or to
different items of a list. -/
inductive Apart : List Segment → List Segment → Prop
  | here {s s' : Segment} (h : s.Beside s') (p q : List Segment) : Apart (s :: p) (s' :: q)
  | behind (s : Segment) {p q : List Segment} (h : Apart p q) : Apart (s :: p) (s :: q)

theorem Segment.Beside.symm {s s' : Segment} (h : s.Beside s') : s'.Beside s := by
  cases h with
  | fields h => exact .fields h.symm
  | items h => exact .items h.symm

theorem Apart.symm {p q : List Segment} (h : Apart p q) : Apart q p := by
  induction h with
  | here h p q => exact .here h.symm q p
  | behind s h ih => exact .behind s ih

/-- No path parts from itself. -/
theorem Apart.ne {p q : List Segment} (h : Apart p q) : p ≠ q := by
  induction h with
  | here h p q =>
    intro he
    obtain ⟨rfl, -⟩ := List.cons.inj he
    cases h with
    | fields h => exact h rfl
    | items h => exact h rfl
  | behind s h ih => exact fun he => ih (List.cons.inj he).2

/-- A text at a path behind one more step. -/
def behind (s : Segment) (leaf : List Segment × String) : List Segment × String :=
  (s :: leaf.1, leaf.2)

namespace Tree

/-! ### One step -/

/-- What a step leads to; null if there is nothing. -/
def part : Segment → Tree → Tree
  | .field name, t => (SortedMap.lookup name t.fields).getD .null
  | .index i, t => t.items.getD i .null

/-- A tree with something else where a step leads. It is made into a record or a list, whichever the
step needs. -/
def withPart : Segment → Tree → Tree → Tree
  | .field name, c, t => .record (SortedMap.insertEntry name c t.fields)
  | .index i, c, t => .list ((pad (i + 1) t.items).set i c)

@[simp] theorem fields_record (fs : List (String × Tree)) : (record fs).fields = fs := rfl

@[simp] theorem items_list (ts : List Tree) : (list ts).items = ts := rfl

theorem getD_pad (n i : Nat) (ts : List Tree) : (pad n ts).getD i .null = ts.getD i .null := by
  rcases Nat.lt_or_ge i ts.length with h | h
  · simp [pad, List.getElem?_append_left h]
  · simp only [pad, List.getD_eq_getElem?_getD, List.getElem?_append_right h,
      List.getElem?_eq_none h, List.getElem?_replicate]
    split <;> rfl

theorem getD_set_pad (i : Nat) (c : Tree) (ts : List Tree) :
    ((pad (i + 1) ts).set i c).getD i .null = c := by
  have hi : i < (pad (i + 1) ts).length := by
    simp [pad]
    omega
  simp [hi]

/-- Putting a text behind a step is putting it into the part that the step leads to. -/
theorem put_cons (v : String) (s : Segment) (p : List Segment) (t : Tree) :
    t.put v (s :: p) = withPart s ((part s t).put v p) t := by
  cases s with
  | field name => rfl
  | index i => simp only [put, part, withPart, getD_pad]

theorem part_withPart (s : Segment) (c t : Tree) : part s (withPart s c t) = c := by
  cases s with
  | field name =>
    simp only [part, withPart, fields_record, SortedMap.lookup_insertEntry,
      Std.ReflCmp.compare_self, if_true, Option.getD_some]
  | index i => exact getD_set_pad i c t.items

/-- What is put at one step does not show at another one of its kind. -/
theorem part_withPart_of_beside {s s' : Segment} (h : s.Beside s') (c t : Tree) :
    part s (withPart s' c t) = part s t := by
  cases h with
  | @fields a b h =>
    have hne : compare a b ≠ .eq := fun he => h (Std.LawfulEqCmp.eq_of_compare he)
    simp only [part, withPart, fields_record, SortedMap.lookup_insertEntry, if_neg hne]
  | @items i j h =>
    change ((pad (j + 1) t.items).set j c).getD i .null = t.items.getD i .null
    rw [← getD_pad (j + 1) i t.items, List.getD_eq_getElem?_getD, List.getElem?_set_ne h.symm,
      List.getD_eq_getElem?_getD]

/-- Of two things put at one step the later one stays. -/
theorem withPart_withPart (s : Segment) (c d t : Tree) :
    withPart s c (withPart s d t) = withPart s c t := by
  cases s with
  | field name => simp only [withPart, fields_record, SortedMap.insertEntry_insertEntry_self]
  | index i =>
    have hpad : pad (i + 1) ((pad (i + 1) t.items).set i d) = (pad (i + 1) t.items).set i d := by
      have hlen : i + 1 - (t.items.length + (i + 1 - t.items.length)) = 0 := by omega
      simp [pad, hlen]
    simp only [withPart, items_list, hpad, List.set_set]

/-- Lists of the same length with the same items are the same. -/
theorem items_ext {ts us : List Tree} (hlen : ts.length = us.length)
    (h : ∀ i, ts.getD i .null = us.getD i .null) : ts = us := by
  refine List.ext_getElem hlen fun i hi hi' => ?_
  have hget := h i
  rwa [List.getD_eq_getElem?_getD, List.getD_eq_getElem?_getD, List.getElem?_eq_getElem hi,
    List.getElem?_eq_getElem hi'] at hget

/-- Things can be put at two steps of one kind in either order. -/
theorem withPart_comm {s s' : Segment} (h : s.Beside s') (c d t : Tree) :
    withPart s c (withPart s' d t) = withPart s' d (withPart s c t) := by
  cases h with
  | fields h => simp only [withPart, fields_record, SortedMap.insertEntry_comm h]
  | @items i j h =>
    have hlen : ((pad (i + 1) ((pad (j + 1) t.items).set j d)).set i c).length =
        ((pad (j + 1) ((pad (i + 1) t.items).set i c)).set j d).length := by
      simp [pad]
      omega
    refine congrArg Tree.list (items_ext hlen fun k => ?_)
    change part (.index k) (withPart (.index i) c (withPart (.index j) d t)) =
      part (.index k) (withPart (.index j) d (withPart (.index i) c t))
    by_cases hi : k = i
    · subst hi
      rw [part_withPart, part_withPart_of_beside (.items h), part_withPart]
    by_cases hj : k = j
    · subst hj
      rw [part_withPart, part_withPart_of_beside (.items hi), part_withPart]
    · rw [part_withPart_of_beside (.items hi), part_withPart_of_beside (.items hj),
        part_withPart_of_beside (.items hj), part_withPart_of_beside (.items hi)]

end Tree

/-! ### Whole paths -/

/-- **Texts at paths that part ways can be put in either order.** -/
theorem Apart.put_comm {p q : List Segment} (h : Apart p q) (v w : String) (t : Tree) :
    (t.put w q).put v p = (t.put v p).put w q := by
  induction h generalizing t with
  | here h p q =>
    rw [Tree.put_cons, Tree.put_cons, Tree.put_cons, Tree.put_cons,
      Tree.part_withPart_of_beside h, Tree.part_withPart_of_beside h.symm, Tree.withPart_comm h]
  | behind s h ih =>
    rw [Tree.put_cons, Tree.put_cons, Tree.put_cons, Tree.put_cons, Tree.part_withPart,
      Tree.part_withPart, Tree.withPart_withPart, Tree.withPart_withPart, ih]

namespace Tree

/-- Texts put at their paths, one after the other. -/
def putAll (leaves : List (List Segment × String)) (t : Tree) : Tree :=
  leaves.foldl (fun t leaf => t.put leaf.2 leaf.1) t

instance : Std.Symm fun a b : List Segment × String => Apart a.1 b.1 := ⟨fun _ _ h => h.symm⟩

/-- **Texts at paths that part ways can be put in any order.** -/
theorem putAll_perm {l l' : List (List Segment × String)} (h : l.Perm l')
    (hapart : l.Pairwise fun a b => Apart a.1 b.1) (t : Tree) : putAll l t = putAll l' t := by
  have hcomm : ∀ a ∈ l, ∀ b ∈ l, ∀ t : Tree,
      (t.put a.2 a.1).put b.2 b.1 = (t.put b.2 b.1).put a.2 a.1 := by
    intro a ha b hb t
    by_cases hab : a = b
    · rw [hab]
    · exact (hapart.forall ha hb hab).symm.put_comm _ _ t
  exact h.foldl_eq' hcomm t

theorem putAll_append (l l' : List (List Segment × String)) (t : Tree) :
    putAll (l ++ l') t = putAll l' (putAll l t) :=
  List.foldl_append

/-- **Texts behind one step** are put into the part that the step leads to. -/
theorem putAll_behind {l : List (List Segment × String)} (h : l ≠ []) (s : Segment) (t : Tree) :
    putAll (l.map (behind s)) t = withPart s (putAll l (part s t)) t := by
  induction l generalizing t with
  | nil => exact absurd rfl h
  | cons leaf l ih =>
    have hfirst : t.put leaf.2 (behind s leaf).1 =
        withPart s ((part s t).put leaf.2 leaf.1) t := put_cons leaf.2 s leaf.1 t
    rw [List.map_cons, putAll, List.foldl_cons]
    change putAll (l.map (behind s)) (t.put leaf.2 (behind s leaf).1) = _
    rw [hfirst]
    cases l with
    | nil => rfl
    | cons leaf' l =>
      refine (ih (List.cons_ne_nil _ _) _).trans ?_
      rw [part_withPart, withPart_withPart]
      rfl

end Tree

end Binding

end LiveConfig
