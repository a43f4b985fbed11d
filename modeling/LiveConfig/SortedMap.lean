/-!
# Maps in key order

`SortedMap α β` is a finite map kept as the list of its entries in strictly ascending order of the
key. Two such maps with the same look-ups are the same list, so equality of maps is equality of
content, and everything that is reported "in key order" is read straight off `entries`.

The look-up lemmas at the end (`get?_empty`, `get?_insert`, `get?_erase`, `get?_map`,
`get?_override`) say what each operation does to the map as a function; `ext_get?` says that the
function is all there is.
-/

namespace LiveConfig

universe u v w

/-- A finite map, as its entries in strictly ascending order of the key. -/
structure SortedMap (α : Type u) (β : Type v) [Ord α] where
  /-- The entries, smallest key first. -/
  entries : List (α × β)
  /-- No key is repeated, and the keys ascend. -/
  ascending : entries.Pairwise (fun a b => compare a.1 b.1 = .lt)

namespace SortedMap

variable {α : Type u} {β : Type v} {γ : Type w} [Ord α]

instance [DecidableEq α] [DecidableEq β] : DecidableEq (SortedMap α β) := fun m n =>
  if h : m.entries = n.entries then
    isTrue (by cases m; cases n; cases h; rfl)
  else
    isFalse (fun e => h (by rw [e]))

/-- The map without entries. -/
def empty : SortedMap α β := ⟨[], .nil⟩

instance : EmptyCollection (SortedMap α β) := ⟨empty⟩

instance : Inhabited (SortedMap α β) := ⟨empty⟩

/-- The value at a key of a list of entries, the first one if the key is repeated. -/
def lookup (k : α) : List (α × β) → Option β
  | [] => none
  | (k', v) :: r => if compare k k' = .eq then some v else lookup k r

/-- The value at a key. -/
def get? (m : SortedMap α β) (k : α) : Option β := lookup k m.entries

/-- Whether the map has a value at a key. -/
def contains (m : SortedMap α β) (k : α) : Bool := (m.get? k).isSome

/-- The keys in ascending order. -/
def keys (m : SortedMap α β) : List α := m.entries.map (·.1)

/-- The values in ascending order of their keys. -/
def values (m : SortedMap α β) : List β := m.entries.map (·.2)

/-- How many keys the map has. -/
def size (m : SortedMap α β) : Nat := m.entries.length

/-- Whether the map has no entry. -/
def isEmpty (m : SortedMap α β) : Bool := m.entries.isEmpty

/-- Put a value into an ascending list of entries, in place of the one at the same key. -/
def insertEntry (k : α) (v : β) : List (α × β) → List (α × β)
  | [] => [(k, v)]
  | (k', v') :: r =>
    match compare k k' with
    | .lt => (k, v) :: (k', v') :: r
    | .eq => (k, v) :: r
    | .gt => (k', v') :: insertEntry k v r

theorem mem_insertEntry {k : α} {v : β} {l : List (α × β)} {e : α × β}
    (h : e ∈ insertEntry k v l) : e = (k, v) ∨ e ∈ l := by
  induction l with
  | nil => simpa [insertEntry] using h
  | cons a r ih =>
    obtain ⟨k', v'⟩ := a
    unfold insertEntry at h
    split at h
    · simpa using h
    · simp only [List.mem_cons] at h ⊢
      exact h.imp_right Or.inr
    · simp only [List.mem_cons] at h ⊢
      rcases h with h | h
      · exact Or.inr (Or.inl h)
      · exact (ih h).imp_right Or.inr

theorem ascending_insertEntry [Std.TransOrd α] [Std.LawfulEqOrd α] (k : α) (v : β)
    {l : List (α × β)} (h : l.Pairwise (fun a b => compare a.1 b.1 = .lt)) :
    (insertEntry k v l).Pairwise (fun a b => compare a.1 b.1 = .lt) := by
  induction l with
  | nil => simp [insertEntry]
  | cons a r ih =>
    obtain ⟨k', v'⟩ := a
    rw [List.pairwise_cons] at h
    unfold insertEntry
    split
    · rename_i hlt
      refine List.pairwise_cons.2 ⟨?_, List.pairwise_cons.2 h⟩
      intro e he
      rcases List.mem_cons.1 he with rfl | he
      · exact hlt
      · exact Std.TransCmp.lt_trans hlt (h.1 e he)
    · rename_i heq
      obtain rfl : k = k' := Std.LawfulEqCmp.eq_of_compare heq
      exact List.pairwise_cons.2 ⟨h.1, h.2⟩
    · rename_i hgt
      refine List.pairwise_cons.2 ⟨?_, ih h.2⟩
      intro e he
      rcases mem_insertEntry he with rfl | he
      · exact Std.OrientedCmp.lt_of_gt hgt
      · exact h.1 e he

/-- The map with a value put at a key, in place of the value that was there. -/
def insert [Std.TransOrd α] [Std.LawfulEqOrd α] (m : SortedMap α β) (k : α) (v : β) :
    SortedMap α β :=
  ⟨insertEntry k v m.entries, ascending_insertEntry k v m.ascending⟩

/-- The map of those entries that satisfy a test. -/
def filter (p : α → β → Bool) (m : SortedMap α β) : SortedMap α β :=
  ⟨m.entries.filter (fun e => p e.1 e.2), m.ascending.filter _⟩

/-- The map without the entry at a key. -/
def erase (m : SortedMap α β) (k : α) : SortedMap α β :=
  m.filter (fun k' _ => compare k k' != .eq)

/-- The map with every value replaced by its image. -/
def map (f : β → γ) (m : SortedMap α β) : SortedMap α γ :=
  ⟨m.entries.map (fun e => (e.1, f e.2)), by
    rw [List.pairwise_map]
    exact m.ascending⟩

/-- Put every entry of a list into a map, in order, so that the last one at a key stays. -/
def insertMany [Std.TransOrd α] [Std.LawfulEqOrd α] (m : SortedMap α β) (l : List (α × β)) :
    SortedMap α β :=
  l.foldl (fun m e => m.insert e.1 e.2) m

/-- The map of a list of entries, in which the last one at a key counts. -/
def ofList [Std.TransOrd α] [Std.LawfulEqOrd α] (l : List (α × β)) : SortedMap α β :=
  insertMany ∅ l

/-- The first map with the entries of the second put over it. -/
def override [Std.TransOrd α] [Std.LawfulEqOrd α] (m n : SortedMap α β) : SortedMap α β :=
  m.insertMany n.entries

/-- Whether every entry of the first map is an entry of the second. -/
def subset [BEq β] (m n : SortedMap α β) : Bool :=
  m.entries.all (fun e => n.get? e.1 == some e.2)

/-! ### What the operations do to look-ups -/

@[simp] theorem entries_empty : (∅ : SortedMap α β).entries = [] := rfl

@[simp] theorem get?_empty (k : α) : (∅ : SortedMap α β).get? k = none := rfl

theorem lookup_eq_none_of_lt {k : α} {l : List (α × β)}
    (h : ∀ e ∈ l, compare k e.1 = .lt) : lookup k l = none := by
  induction l with
  | nil => rfl
  | cons a r ih =>
    obtain ⟨k', v'⟩ := a
    have hk : compare k k' = .lt := h (k', v') (List.mem_cons_self ..)
    simp [lookup, hk, ih (fun e he => h e (List.mem_cons_of_mem _ he))]

theorem lookup_insertEntry [Std.TransOrd α] [Std.LawfulEqOrd α] (k x : α) (v : β)
    (l : List (α × β)) :
    lookup x (insertEntry k v l) = if compare x k = .eq then some v else lookup x l := by
  induction l with
  | nil => rfl
  | cons a r ih =>
    obtain ⟨k', v'⟩ := a
    unfold insertEntry
    split
    · rfl
    · rename_i heq
      obtain rfl : k = k' := Std.LawfulEqCmp.eq_of_compare heq
      simp only [lookup]
      split <;> rfl
    · rename_i hgt
      simp only [lookup, ih]
      by_cases hx : compare x k' = .eq
      · obtain rfl : x = k' := Std.LawfulEqCmp.eq_of_compare hx
        have hne : compare x k ≠ .eq := by
          intro he
          obtain rfl : x = k := Std.LawfulEqCmp.eq_of_compare he
          simp [Std.ReflCmp.compare_self] at hgt
        simp [hne]
      · simp [hx]

theorem get?_insert [Std.TransOrd α] [Std.LawfulEqOrd α] (m : SortedMap α β) (k x : α) (v : β) :
    (m.insert k v).get? x = if compare x k = .eq then some v else m.get? x :=
  lookup_insertEntry k x v m.entries

@[simp] theorem get?_insert_self [Std.TransOrd α] [Std.LawfulEqOrd α] (m : SortedMap α β) (k : α)
    (v : β) : (m.insert k v).get? k = some v := by
  simp [get?_insert, Std.ReflCmp.compare_self]

theorem lookup_filter [Std.LawfulEqOrd α] (k x : α) (l : List (α × β)) :
    lookup x (l.filter (fun e => compare k e.1 != .eq)) =
      if compare k x = .eq then none else lookup x l := by
  induction l with
  | nil => simp [lookup]
  | cons a r ih =>
    obtain ⟨k', v'⟩ := a
    by_cases hk : compare k k' = .eq
    · obtain rfl : k = k' := Std.LawfulEqCmp.eq_of_compare hk
      simp only [List.filter_cons, hk, bne_self_eq_false, Bool.false_eq_true, ↓reduceIte, ih, lookup]
      by_cases hx : compare k x = .eq
      · simp [hx]
      · have : compare x k ≠ .eq := by
          intro he
          obtain rfl : x = k := Std.LawfulEqCmp.eq_of_compare he
          exact hx he
        simp [hx, this]
    · simp only [List.filter_cons, bne_iff_ne, ne_eq, hk, not_false_eq_true, ↓reduceIte, lookup, ih]
      by_cases hx : compare x k' = .eq
      · obtain rfl : x = k' := Std.LawfulEqCmp.eq_of_compare hx
        simp [hk]
      · simp [hx]

theorem get?_erase [Std.LawfulEqOrd α] (m : SortedMap α β) (k x : α) :
    (m.erase k).get? x = if compare k x = .eq then none else m.get? x :=
  lookup_filter k x m.entries

theorem mem_of_lookup [Std.LawfulEqOrd α] {k : α} {v : β} {l : List (α × β)}
    (h : lookup k l = some v) : (k, v) ∈ l := by
  induction l with
  | nil => simp [lookup] at h
  | cons a r ih =>
    obtain ⟨k', v'⟩ := a
    unfold lookup at h
    split at h
    · rename_i heq
      obtain rfl : k = k' := Std.LawfulEqCmp.eq_of_compare heq
      obtain rfl : v' = v := by simpa using h
      exact List.mem_cons_self ..
    · exact List.mem_cons_of_mem _ (ih h)

theorem lookup_of_mem [Std.TransOrd α] [Std.LawfulEqOrd α] {k : α} {v : β} {l : List (α × β)}
    (hl : l.Pairwise (fun a b => compare a.1 b.1 = .lt)) (h : (k, v) ∈ l) :
    lookup k l = some v := by
  induction l with
  | nil => simp at h
  | cons a r ih =>
    obtain ⟨k', v'⟩ := a
    rw [List.pairwise_cons] at hl
    rcases List.mem_cons.1 h with h | h
    · obtain ⟨rfl, rfl⟩ := Prod.mk.inj h
      simp [lookup, Std.ReflCmp.compare_self]
    · have hlt : compare k' k = .lt := hl.1 (k, v) h
      have hne : compare k k' ≠ .eq := by
        intro he
        obtain rfl : k = k' := Std.LawfulEqCmp.eq_of_compare he
        simp [Std.ReflCmp.compare_self] at hlt
      simp [lookup, hne, ih hl.2 h]

theorem get?_eq_some_iff [Std.TransOrd α] [Std.LawfulEqOrd α] {m : SortedMap α β} {k : α} {v : β} :
    m.get? k = some v ↔ (k, v) ∈ m.entries :=
  ⟨mem_of_lookup, lookup_of_mem m.ascending⟩

theorem get?_map (f : β → γ) (m : SortedMap α β) (k : α) : (m.map f).get? k = (m.get? k).map f := by
  obtain ⟨l, hl⟩ := m
  change lookup k (l.map (fun e => (e.1, f e.2))) = (lookup k l).map f
  clear hl
  induction l with
  | nil => rfl
  | cons a r ih =>
    obtain ⟨k', v'⟩ := a
    simp only [List.map_cons, lookup]
    split
    · rfl
    · exact ih

theorem get?_insertMany [Std.TransOrd α] [Std.LawfulEqOrd α] {l : List (α × β)}
    (hl : l.Pairwise (fun a b => compare a.1 b.1 = .lt)) (m : SortedMap α β) (k : α) :
    (m.insertMany l).get? k = (lookup k l).or (m.get? k) := by
  induction l generalizing m with
  | nil => simp [insertMany, lookup]
  | cons a r ih =>
    obtain ⟨k', v'⟩ := a
    rw [List.pairwise_cons] at hl
    have hstep : m.insertMany ((k', v') :: r) = (m.insert k' v').insertMany r := rfl
    rw [hstep, ih hl.2, get?_insert]
    by_cases hk : compare k k' = .eq
    · obtain rfl : k = k' := Std.LawfulEqCmp.eq_of_compare hk
      simp [lookup, lookup_eq_none_of_lt hl.1]
    · simp [lookup, hk]

/-- Where both maps have a value, that of the second counts. -/
theorem get?_override [Std.TransOrd α] [Std.LawfulEqOrd α] (m n : SortedMap α β) (k : α) :
    (m.override n).get? k = (n.get? k).or (m.get? k) :=
  get?_insertMany n.ascending m k

/-- Two maps with the same look-ups have the same entries in the same order. -/
theorem ext_get? [Std.TransOrd α] [Std.LawfulEqOrd α] {m n : SortedMap α β}
    (h : ∀ k, m.get? k = n.get? k) : m = n := by
  have key : ∀ {l l' : List (α × β)}, l.Pairwise (fun a b => compare a.1 b.1 = .lt) →
      l'.Pairwise (fun a b => compare a.1 b.1 = .lt) → (∀ e, e ∈ l ↔ e ∈ l') → l = l' := by
    intro l
    induction l with
    | nil =>
      intro l' _ _ he
      cases l' with
      | nil => rfl
      | cons a r => exact absurd ((he a).2 (List.mem_cons_self ..)) (by simp)
    | cons a r ih =>
      intro l' hl hl' he
      cases l' with
      | nil => exact absurd ((he a).1 (List.mem_cons_self ..)) (by simp)
      | cons b s =>
        rw [List.pairwise_cons] at hl hl'
        have hab : a = b := by
          rcases List.mem_cons.1 ((he a).1 (List.mem_cons_self ..)) with h1 | h1
          · exact h1
          · rcases List.mem_cons.1 ((he b).2 (List.mem_cons_self ..)) with h2 | h2
            · exact h2.symm
            · have hba := hl'.1 a h1
              have hab := hl.1 b h2
              have := Std.TransCmp.lt_trans hab hba
              simp [Std.ReflCmp.compare_self] at this
        subst hab
        have hrest : ∀ e, e ∈ r ↔ e ∈ s := by
          intro e
          constructor
          · intro her
            rcases List.mem_cons.1 ((he e).1 (List.mem_cons_of_mem _ her)) with rfl | h1
            · have := hl.1 e her
              simp [Std.ReflCmp.compare_self] at this
            · exact h1
          · intro hes
            rcases List.mem_cons.1 ((he e).2 (List.mem_cons_of_mem _ hes)) with rfl | h1
            · have := hl'.1 e hes
              simp [Std.ReflCmp.compare_self] at this
            · exact h1
        rw [ih hl.2 hl'.2 hrest]
  have he : m.entries = n.entries := by
    refine key m.ascending n.ascending ?_
    rintro ⟨k, v⟩
    rw [← get?_eq_some_iff, ← get?_eq_some_iff, h k]
  cases m
  cases n
  cases he
  rfl

end SortedMap

end LiveConfig
