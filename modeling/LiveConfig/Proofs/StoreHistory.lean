import LiveConfig.Proofs.SortedMap
import LiveConfig.Store

/-!
# Histories of a store

Whatever is done to a store comes down to two things: an event is recorded, which changes the object
that it is about, or all streams are told to break off. A property that both keep is a property of
every later store (`Store.perform_induction`).

Versions tell times apart. An object that exists now and whose version was given out before some
moment has not been touched since (`Store.Precedes`), and that is how the answers to the requests of
one resolution are compared although each was given at a moment of its own.

## Main definitions

* `Store.Records` — one store is another one with an event recorded
* `Store.Keyed`, `Store.Sound` — objects stand under their keys, and carry versions that were given
  out
* `Store.Precedes` — what an earlier store says about a later one

## Main results

* `Store.perform_induction` — what every single change keeps, every instruction keeps
* `Store.sound_after` — every store that began empty is sound
-/

namespace LiveConfig

/-- Versions are told apart by their texts. -/
theorem eq_of_toString_eq {m n : Nat} (h : toString m = toString n) : m = n := by
  have hd : Nat.toDigits 10 m = Nat.toDigits 10 n := by
    have hl := congrArg String.toList h
    simpa [toString, Nat.toList_repr] using hl
  rw [← Nat.ofDigitChars_toDigits (b := 10) (n := m) (by decide) (by decide), hd,
    Nat.ofDigitChars_toDigits (by decide) (by decide)]

/-- The object that an event leaves behind. -/
def Event.object? : Event → Option Object
  | .applied o => some o
  | .deleted _ => none

/-- A version is among the first so many. -/
def Issued (n : Nat) (v : String) : Prop := ∃ m ≤ n, v = toString m

theorem Issued.mono {m n : Nat} {v : String} (h : Issued m v) (hmn : m ≤ n) : Issued n v := by
  obtain ⟨i, hi, rfl⟩ := h
  exact ⟨i, Nat.le_trans hi hmn, rfl⟩

namespace Store

/-! ### Single changes -/

/-- The second store is the first with an event recorded. -/
structure Records (s t : Store) (e : Event) : Prop where
  /-- The event is signalled. -/
  feed : t.feed = s.feed ++ [.event e]
  /-- The object that it is about is what the event leaves behind. -/
  objects : ∀ k, t.objects.get? k = if k = e.key then e.object? else s.objects.get? k
  /-- Versions only grow. -/
  version_le : s.version ≤ t.version
  /-- An object that is created or changed gets the next version. -/
  next : ∀ o, e = .applied o → o.version = toString (s.version + 1) ∧ t.version = s.version + 1

theorem records_apply (s : Store) (o : Object) :
    s.Records (s.apply o) (.applied { o with version := s.nextVersion }) where
  feed := feed_apply s o
  objects k := by
    rw [get?_apply]
    simp only [Std.compare_eq_iff_eq]
    rfl
  version_le := Nat.le_succ _
  next o' h := by
    injection h with h
    subst h
    exact ⟨rfl, rfl⟩

theorem records_delete {s : Store} {k : ObjectKey} {o : Object} (h : s.objects.get? k = some o) :
    s.Records (s.delete k) (.deleted k) where
  feed := feed_delete_of_get?_eq_some h
  objects x := by
    rw [get?_delete]
    simp only [Std.compare_eq_iff_eq, @eq_comm _ k x]
    rfl
  version_le := Nat.le_of_eq (version_delete s k).symm
  next o' h := nomatch h

/-- **Induction on what is done to a store.** A property of stores that is kept when an event is
recorded and when streams are told to break off is kept by every instruction; only the instruction
to delete records deletions, and only the one to disconnect tells streams to break off. -/
theorem perform_induction {P : Store → Prop} {x : Step}
    (hrecord : ∀ {s t : Store} {e : Event}, s.Records t e →
      (∀ k, e = .deleted k → x = .delete k) → P s → P t)
    (hdisconnect : ∀ {s : Store}, x = .disconnect → P s → P s.disconnect)
    {s : Store} (hs : P s) : P (s.perform x).1 := by
  have happly : ∀ t o, P t → P (apply t o) := fun t o ht =>
    hrecord (records_apply t o) (fun k hk => nomatch hk) ht
  cases x with
  | put k labels data => exact happly s _ hs
  | apply o => exact happly s o hs
  | touch k =>
    change P (s.touch k)
    cases hk : s.objects.get? k with
    | none => rwa [touch, hk]
    | some o => rw [touch, hk]; exact happly s o hs
  | delete k =>
    change P (s.delete k)
    cases hk : s.objects.get? k with
    | none => rwa [delete_of_get?_eq_none hk]
    | some o =>
      refine hrecord (records_delete hk) (fun k' hk' => ?_) hs
      injection hk' with hk'
      rw [hk']
  | disconnect => exact hdisconnect rfl hs
  | putMany space name labels count =>
    have hfold : ∀ (l : List Nat) (t : Store), P t →
        P (l.foldl (fun t i => t.put ⟨.configMap, space, name⟩ labels (numbered i)) t) := by
      intro l
      induction l with
      | nil => exact fun t ht => ht
      | cons i l ih => exact fun t ht => ih _ (happly t _ ht)
    exact hfold _ s hs

/-- A feed only grows, and only the instruction to disconnect tells streams to break off. -/
theorem feed_perform (s : Store) (x : Step) : ∃ l, (s.perform x).1.feed = s.feed ++ l ∧
    (x ≠ .disconnect → .disconnect ∉ l) := by
  have hself : ∃ l, s.feed = s.feed ++ l ∧ (x ≠ .disconnect → .disconnect ∉ l) :=
    ⟨[], (List.append_nil _).symm, fun _ => List.not_mem_nil⟩
  refine perform_induction (P := fun t => ∃ l, t.feed = s.feed ++ l ∧
    (x ≠ .disconnect → .disconnect ∉ l)) ?_ ?_ hself
  · rintro r t e ht - ⟨l, hl, hnot⟩
    refine ⟨l ++ [.event e], by rw [ht.feed, hl, List.append_assoc], fun hx hmem => ?_⟩
    rcases List.mem_append.mp hmem with hmem | hmem
    · exact hnot hx hmem
    · exact nomatch List.mem_singleton.mp hmem
  · rintro r hx ⟨l, hl, -⟩
    exact ⟨l ++ [.disconnect], by rw [← List.append_assoc, ← hl]; rfl, fun h => absurd hx h⟩

/-- Nothing but a deletion removes an object. -/
theorem contains_perform {s : Store} {x : Step} (hx : ∀ k, x ≠ .delete k) {k : ObjectKey}
    (hk : s.objects.contains k = true) : (s.perform x).1.objects.contains k = true := by
  refine perform_induction (P := fun t => t.objects.contains k = true) ?_ (fun _ h => h) hk
  intro r t e ht hdelete h
  rw [SortedMap.contains, ht.objects]
  split
  · cases e with
    | applied o => rfl
    | deleted k' => exact absurd (hdelete k' rfl) (hx k')
  · exact h

/-! ### Soundness -/

/-- Objects stand under their keys. -/
abbrev Keyed (s : Store) : Prop := ∀ {k o}, s.objects.get? k = some o → o.key = k

/-- Objects stand under their keys, and every version in the store or its feed was given out. -/
structure Sound (s : Store) : Prop where
  keyed : s.Keyed
  issued : ∀ {k o}, s.objects.get? k = some o → Issued s.version o.version
  signalled : ∀ {o}, .event (.applied o) ∈ s.feed → Issued s.version o.version

theorem sound_empty : (∅ : Store).Sound where
  keyed h := nomatch h
  issued h := nomatch h
  signalled h := nomatch h

/-- An event that is recorded leaves an object of its own key, with a version given out by then. -/
theorem Records.issued {s t : Store} {e : Event} (h : s.Records t e) {o : Object}
    (ho : e = .applied o) : Issued t.version o.version :=
  ⟨s.version + 1, Nat.le_of_eq (h.next o ho).2.symm, (h.next o ho).1⟩

theorem Records.object? {s t : Store} {e : Event} (h : s.Records t e) {k : ObjectKey} {o : Object}
    (ho : t.objects.get? k = some o) : e = .applied o ∧ k = o.key ∨ s.objects.get? k = some o := by
  rw [h.objects] at ho
  split at ho
  · rename_i hk
    cases e with
    | applied o' =>
      injection ho with ho
      subst ho
      exact Or.inl ⟨rfl, hk⟩
    | deleted k' => cases ho
  · exact Or.inr ho

theorem Sound.records {s t : Store} {e : Event} (hs : s.Sound) (h : s.Records t e) : t.Sound where
  keyed := by
    intro k o ho
    rcases h.object? ho with ⟨-, rfl⟩ | ho
    · rfl
    · exact hs.keyed ho
  issued := by
    intro k o ho
    rcases h.object? ho with ⟨he, -⟩ | ho
    · exact h.issued he
    · exact (hs.issued ho).mono h.version_le
  signalled := by
    intro o ho
    rw [h.feed, List.mem_append, List.mem_singleton] at ho
    rcases ho with ho | ho
    · exact (hs.signalled ho).mono h.version_le
    · injection ho with ho
      exact h.issued ho.symm

theorem Sound.disconnect {s : Store} (hs : s.Sound) : s.disconnect.Sound where
  keyed h := hs.keyed h
  issued h := hs.issued h
  signalled := by
    intro o ho
    rcases List.mem_append.mp ho with ho | ho
    · exact hs.signalled ho
    · exact nomatch List.mem_singleton.mp ho

/-- Only objects, versions and the feed of a store matter. -/
theorem Sound.congr {s t : Store} (hs : s.Sound) (hobjects : t.objects = s.objects)
    (hversion : t.version = s.version) (hfeed : t.feed = s.feed) : t.Sound := by
  obtain ⟨keyed, issued, signalled⟩ := hs
  constructor
  · intro k o ho
    rw [hobjects] at ho
    exact keyed ho
  · rwa [hobjects, hversion]
  · rwa [hfeed, hversion]

theorem Sound.perform {s : Store} (hs : s.Sound) (x : Step) : (s.perform x).1.Sound :=
  perform_induction (fun h _ hs => hs.records h) (fun _ hs => hs.disconnect) hs

/-- The store after some instructions, from an empty one. -/
def after (xs : List Step) : Store := xs.foldl (fun s x => (s.perform x).1) ∅

theorem sound_after (xs : List Step) : (after xs).Sound := by
  have hfold : ∀ (l : List Step) (s : Store), s.Sound →
      (l.foldl (fun s x => (s.perform x).1) s).Sound := by
    intro l
    induction l with
    | nil => exact fun s hs => hs
    | cons x l ih => exact fun s hs => ih _ (hs.perform x)
  exact hfold xs ∅ sound_empty

theorem mem_objectsIn_iff {s : Store} (hs : s.Keyed) {scope : Scope} {o : Object} :
    o ∈ s.objectsIn scope ↔ s.objects.get? o.key = some o ∧ o.key.scope = scope := by
  rw [mem_objectsIn, SortedMap.mem_values]
  refine and_congr_left fun _ => ⟨?_, fun h => ⟨o.key, h⟩⟩
  rintro ⟨k, hk⟩
  rwa [hs hk]

/-! ### Earlier and later stores -/

/-- The first store was there before the second: an object of the second one is an object of the
first, or was given a later version. -/
structure Precedes (s t : Store) : Prop where
  version_le : s.version ≤ t.version
  object : ∀ {k o}, t.objects.get? k = some o →
    s.objects.get? k = some o ∨ ∃ n, s.version < n ∧ o.version = toString n

theorem Precedes.refl (s : Store) : s.Precedes s := ⟨Nat.le_refl _, Or.inl⟩

theorem Precedes.records {r s t : Store} {e : Event} (hrs : r.Precedes s) (h : s.Records t e) :
    r.Precedes t where
  version_le := Nat.le_trans hrs.version_le h.version_le
  object := by
    intro k o ho
    rcases h.object? ho with ⟨he, -⟩ | ho
    · exact Or.inr ⟨s.version + 1, Nat.lt_succ_of_le hrs.version_le, (h.next o he).1⟩
    · exact hrs.object ho

theorem Precedes.disconnect {r s : Store} (h : r.Precedes s) : r.Precedes s.disconnect :=
  ⟨h.version_le, h.object⟩

theorem Precedes.perform {r s : Store} (h : r.Precedes s) (x : Step) :
    r.Precedes (s.perform x).1 :=
  perform_induction (fun ht _ hs => hs.records ht) (fun _ hs => hs.disconnect) h

/-- An object with a version that had been given out before was there before. -/
theorem Precedes.get?_of_issued {s t : Store} (h : s.Precedes t) {k : ObjectKey} {o : Object}
    (ho : t.objects.get? k = some o) {n : Nat} (hn : n ≤ s.version) (hv : Issued n o.version) :
    s.objects.get? k = some o := by
  rcases h.object ho with hs | ⟨m, hm, hv'⟩
  · exact hs
  · obtain ⟨i, hi, hi'⟩ := hv
    have hmi : m = i := eq_of_toString_eq (hv'.symm.trans hi')
    omega

end Store

end LiveConfig
