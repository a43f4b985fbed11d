import LiveConfig.Proofs.PropertyPlaces
import Mathlib.Data.List.Basic

/-!
# The part of a tree under a qualifier

The tree of the properties under a qualifier can be made in two ways: by taking the qualifier off
their keys and arranging what is left, or by arranging all properties and following the qualifier
into the tree. In the second way other properties are put in between. They make no difference as
long as none of them wants a list at the qualifier or on the way to it, which takes a key that goes
on with a bracket there (`Binding.eq_of_displaces`). A text at the qualifier, or on the way to it,
comes before the first property behind it, gives way to that one, and cannot come back.

## Main definitions

* `Snapshot.Heads` — a text is a qualifier, or made of the first of its parts

## Main results

* `Binding.eq_of_displaces` — the keys that may get in the way of what is under a qualifier
* `Binding.Tree.at?_ofProperties_qualifier` — the two ways, for properties that do not
* `Binding.Tree.ofSnapshot_under` — the two ways, for a snapshot and a qualifier
-/

namespace LiveConfig

namespace Binding

/-! ### Parts that are put together -/

theorem intercalate_partsOf (cs : List Char) : ['.'].intercalate (partsOf cs) = cs := by
  induction cs with
  | nil => rfl
  | cons c cs ih =>
    by_cases hc : c = '.'
    · rw [partsOf, if_pos hc, List.intercalate_cons_of_ne_nil (partsOf_ne_nil cs), ih, hc]
      rfl
    · obtain ⟨p, ps, hp, hcons⟩ := partsOf_cons hc cs
      rw [hcons, List.intercalate_cons_cons_left, ← hp, ih]

theorem intercalate_append {as bs : List (List Char)} (has : as ≠ []) (hbs : bs ≠ []) :
    ['.'].intercalate (as ++ bs) = ['.'].intercalate as ++ '.' :: ['.'].intercalate bs := by
  induction as with
  | nil => exact absurd rfl has
  | cons a as ih =>
    cases as with
    | nil =>
      rw [List.intercalate_singleton, List.singleton_append, List.intercalate_cons_of_ne_nil hbs]
      simp
    | cons a' as =>
      have hne : a' :: as ≠ [] := List.cons_ne_nil _ _
      rw [List.cons_append, List.intercalate_cons_of_ne_nil (by simp), ih hne,
        List.intercalate_cons_of_ne_nil hne]
      simp

/-! ### What gets in the way -/

/-- The field that a part without brackets names. -/
def name (part : List Char) : Segment := .field (String.ofList part)

/-- A part names a field as it stands, or a field with indices in brackets behind it. -/
theorem segmentsOf_cases (part : List Char) : segmentsOf part = [name part] ∨
    ∃ a r, ∃ indices : List Nat,
      part = a ++ '[' :: r ∧ segmentsOf part = name a :: indices.map .index := by
  by_cases h : '[' ∈ part
  · obtain ⟨a, r, rfl, ha⟩ := List.eq_append_cons_of_mem h
    have htake : (a ++ '[' :: r).takeWhile (· ≠ '[') = a := by
      rw [(span_bracket a r).1, List.takeWhile_eq_self_iff]
      exact fun c hc => decide_eq_true fun heq => ha (heq ▸ hc)
    simp only [segmentsOf]
    rw [htake]
    split
    · rename_i indices hindices
      exact Or.inr ⟨a, r, indices, rfl, rfl⟩
    · exact Or.inl rfl
  · exact Or.inl (segmentsOf_name h).1

theorem name_inj {a b : List Char} (h : name a = name b) : a = b := by
  have htext : String.ofList a = String.ofList b := Segment.field.inj h
  simpa using congrArg String.toList htext

/-- What stands behind a field is taken away behind the same field. -/
theorem Displaces.of_names {a b : List Char} {p q : List Segment}
    (h : Displaces (name b :: q) (name a :: p)) : b = a ∧ Displaces q p := by
  rcases h with h | h
  · obtain ⟨hname, hlead⟩ := List.cons_prefix_cons.mp h
    exact ⟨(name_inj hname).symm, Or.inl hlead⟩
  · generalize hs : name a = s at h
    generalize hs' : name b = s' at h
    cases h with
    | fieldItem n i p q => cases hs'
    | itemField i n p q => cases hs
    | behind s h => exact ⟨name_inj (hs'.trans hs.symm), Or.inr h⟩

/-- What takes away what stands at a row of names goes on behind all of them, or it has a bracket
behind one of them. -/
theorem parts_of_displaces {as bs : List (List Char)}
    (h : Displaces (bs.flatMap segmentsOf) (as.map name)) : (∃ cs, bs = as ++ cs) ∨
      ∃ before a after r bs', as = before ++ a :: after ∧
        bs = before ++ (a ++ '[' :: r) :: bs' := by
  induction as generalizing bs with
  | nil => exact Or.inl ⟨bs, rfl⟩
  | cons a as ih =>
    cases bs with
    | nil =>
      rcases h with h | h
      · cases List.prefix_nil.mp h
      · cases h
    | cons b bs =>
      rw [List.flatMap_cons, List.map_cons] at h
      rcases segmentsOf_cases b with hb | ⟨a', r, indices, rfl, hb⟩
      · rw [hb] at h
        obtain ⟨rfl, hrest⟩ := h.of_names
        rcases ih hrest with ⟨cs, rfl⟩ | ⟨before, a, after, r, bs', rfl, rfl⟩
        · exact Or.inl ⟨cs, rfl⟩
        · exact Or.inr ⟨b :: before, a, after, r, bs', rfl, rfl⟩
      · rw [hb] at h
        obtain ⟨rfl, -⟩ := h.of_names
        exact Or.inr ⟨[], a', as, r, bs, rfl, rfl⟩

end Binding

namespace Snapshot

/-- A text is a qualifier, or it is made of the first of the parts that a qualifier has. -/
def Heads (q qualifier : String) : Prop := q = qualifier ∨ ∃ r, qualifier = q ++ "." ++ r

end Snapshot

namespace Binding

theorem mem_of_mem_partsOf {cs part : List Char} (h : part ∈ partsOf cs) {c : Char}
    (hc : c ∈ part) : c ∈ cs := by
  induction cs generalizing part with
  | nil =>
    obtain rfl := List.mem_singleton.mp h
    exact hc
  | cons d cs ih =>
    by_cases hd : d = '.'
    · rw [partsOf, if_pos hd] at h
      rcases List.mem_cons.mp h with rfl | h
      · cases hc
      · exact List.mem_cons_of_mem _ (ih h hc)
    · obtain ⟨p, ps, hp, hcons⟩ := partsOf_cons hd cs
      rw [hcons] at h
      rcases List.mem_cons.mp h with rfl | h
      · rcases List.mem_cons.mp hc with rfl | hc
        · exact List.mem_cons_self
        · exact List.mem_cons_of_mem _ (ih (hp ▸ List.mem_cons_self) hc)
      · exact List.mem_cons_of_mem _ (ih (hp ▸ List.mem_cons_of_mem _ h) hc)

/-- A qualifier without brackets names its parts, one behind the other. -/
theorem pathOf_eq_names {qualifier : String} (h : '[' ∉ qualifier.toList) :
    pathOf qualifier = (partsOf qualifier.toList).map name := by
  rw [pathOf, List.map_eq_flatMap]
  refine List.flatMap_congr fun part hpart => (segmentsOf_name fun hbracket => ?_).1
  exact h (mem_of_mem_partsOf hpart hbracket)

theorem intercalate_concat (before : List (List Char)) (a r : List Char) :
    ['.'].intercalate (before ++ [a ++ r]) = ['.'].intercalate (before ++ [a]) ++ r := by
  by_cases hbefore : before = []
  · simp [hbefore]
  · rw [intercalate_append hbefore (by simp), intercalate_append hbefore (by simp)]
    simp

/-- What stands behind one of the parts stands behind all up to it. -/
theorem exists_intercalate_behind (before : List (List Char)) (a r : List Char)
    (after : List (List Char)) : ∃ t, ['.'].intercalate (before ++ (a ++ r) :: after) =
      ['.'].intercalate (before ++ [a]) ++ r ++ t := by
  have hsplit : before ++ (a ++ r) :: after = (before ++ [a ++ r]) ++ after := by simp
  rw [hsplit]
  by_cases hafter : after = []
  · exact ⟨[], by rw [hafter, List.append_nil, List.append_nil, intercalate_concat]⟩
  · exact ⟨_, by rw [intercalate_append (by simp) hafter, intercalate_concat]⟩

/-- **The keys that may get in the way** of what is under a qualifier: the qualifier itself, the
keys under it, and those that go on with a bracket behind it or behind some of its parts. -/
theorem eq_of_displaces {qualifier key : String} (hname : '[' ∉ qualifier.toList)
    (h : Displaces (pathOf key) (pathOf qualifier)) :
    key = qualifier ∨ (∃ r, key = qualifier ++ "." ++ r) ∨
      ∃ q r, Snapshot.Heads q qualifier ∧ key = q ++ "[" ++ r := by
  rw [pathOf_eq_names hname] at h
  have hkey := intercalate_partsOf key.toList
  have hqualifier := intercalate_partsOf qualifier.toList
  rcases parts_of_displaces h with ⟨cs, hcs⟩ | ⟨before, a, after, r, bs, hq, hk⟩
  · rw [hcs] at hkey
    by_cases hnil : cs = []
    · rw [hnil, List.append_nil, hqualifier] at hkey
      exact Or.inl (String.toList_injective hkey.symm)
    · refine Or.inr (Or.inl ⟨String.ofList (['.'].intercalate cs), String.toList_injective ?_⟩)
      rw [← hkey, intercalate_append (partsOf_ne_nil _) hnil, hqualifier]
      simp
  · obtain ⟨t, ht⟩ := exists_intercalate_behind before a ('[' :: r) bs
    refine Or.inr (Or.inr ⟨String.ofList (['.'].intercalate (before ++ [a])),
      String.ofList (r ++ t), ?_, String.toList_injective ?_⟩)
    · have hsplit : partsOf qualifier.toList = (before ++ [a]) ++ after := by simp [hq]
      rw [hsplit] at hqualifier
      by_cases hnil : after = []
      · refine Or.inl (String.toList_injective ?_)
        rw [← hqualifier, hnil, List.append_nil, String.toList_ofList]
      · refine Or.inr ⟨String.ofList (['.'].intercalate after), String.toList_injective ?_⟩
        rw [← hqualifier, intercalate_append (by simp) hnil]
        simp
    · rw [← hkey, hk, ht]
      simp

/-! ### Properties under a qualifier among others -/

/-- The properties of a list that are under a qualifier, by what is left of their keys. -/
def stripped (qualifier : String) (l : List (String × String)) : List (String × String) :=
  l.filterMap fun e => (Snapshot.unqualified? qualifier e.1).map (·, e.2)

theorem stripped_concat_under {qualifier r v : String} (l : List (String × String)) :
    stripped qualifier (l ++ [(qualifier ++ "." ++ r, v)]) = stripped qualifier l ++ [(r, v)] := by
  have hrest : Snapshot.unqualified? qualifier (qualifier ++ "." ++ r) = some r :=
    Snapshot.unqualified?_eq_some_iff.mpr rfl
  simp [stripped, hrest]

theorem stripped_concat_other {qualifier : String} {e : String × String}
    (h : ∀ r, e.1 ≠ qualifier ++ "." ++ r) (l : List (String × String)) :
    stripped qualifier (l ++ [e]) = stripped qualifier l := by
  have hnone : Snapshot.unqualified? qualifier e.1 = none := by
    rw [Option.eq_none_iff_forall_ne_some]
    exact fun r hr => h r (Snapshot.unqualified?_eq_some_iff.mp hr)
  simp [stripped, hnone]

theorem bound_eq_stripped {qualifier : String} (hne : qualifier ≠ "") (s : Snapshot) :
    s.bound qualifier = stripped qualifier s.properties.entries := by
  rw [Snapshot.bound, if_neg (by simpa using hne)]
  rfl

theorem bound_eq_nil_iff {s : Snapshot} {qualifier : String} (hne : qualifier ≠ "") :
    s.bound qualifier = [] ↔ ¬ ∃ r, s.properties.contains (qualifier ++ "." ++ r) = true := by
  have hunder : ∀ r v, (r, v) ∈ s.bound qualifier ↔
      s.properties.get? (qualifier ++ "." ++ r) = some v := by
    intro r v
    rw [Snapshot.mem_bound_iff, Snapshot.Holds, Snapshot.qualified, if_neg hne]
  simp only [List.eq_nil_iff_forall_not_mem, Prod.forall, hunder, SortedMap.contains_iff,
    not_exists]

/-- Where no key goes on with a bracket behind a qualifier, or behind some of its parts, only the
qualifier itself and the keys under it matter to what is under it. -/
theorem eq_of_displaces_of_clear {s : Snapshot} {qualifier : String}
    (hname : '[' ∉ qualifier.toList)
    (hclear : ∀ q, Snapshot.Heads q qualifier →
      ∀ r, ¬ s.properties.contains (q ++ "[" ++ r) = true)
    {e : String × String} (he : e ∈ s.properties.entries)
    (hd : Displaces (pathOf e.1) (pathOf qualifier)) :
    e.1 = qualifier ∨ ∃ r, e.1 = qualifier ++ "." ++ r := by
  have hcontains : s.properties.contains e.1 = true :=
    SortedMap.contains_iff.mpr ⟨e.2, SortedMap.get?_eq_some_iff.mpr he⟩
  rcases eq_of_displaces hname hd with heq | hr | ⟨q, r, hq, hkey⟩
  · exact Or.inl heq
  · exact Or.inr hr
  · exact absurd (hkey ▸ hcontains) (hclear q hq r)

namespace Tree

theorem isPopulated_ofProperties {l : List (String × String)} (h : l ≠ []) :
    (ofProperties l).isPopulated = true := by
  obtain ⟨l, e, rfl⟩ := (List.eq_nil_or_concat l).resolve_left h
  obtain ⟨name, p, hpath⟩ := pathOf_eq_cons e.1
  rw [List.concat_eq_append, ofProperties_concat, hpath]
  exact isPopulated_put_cons _ _ _ _

/-- A property makes a record where nothing or a text stands, as in an empty tree. -/
theorem put_pathOf_of_not_isPopulated {t : Tree} (h : t.isPopulated = false) (key v : String) :
    t.put v (pathOf key) = ofProperties [(key, v)] := by
  obtain ⟨name, p, hpath⟩ := pathOf_eq_cons key
  have hfields : t.fields = [] := by
    cases t with
    | record fs => simpa [isPopulated] using h
    | _ => rfl
  have hput : ofProperties [(key, v)] = (record []).put v (pathOf key) := rfl
  rw [hput, hpath, put, put, hfields]
  rfl

/-- Where nothing can be gone through, a text that is not put beyond makes no difference to
that. -/
theorem isPopulated_at?_put {p q : List Segment} (hpq : p <+: q → p = q) {t : Tree}
    (h : ((at? p t).getD .null).isPopulated = false) (v : String) :
    ((at? p (t.put v q)).getD .null).isPopulated = false := by
  by_cases hlead : p <+: q
  · obtain rfl := hpq hlead
    have hput := at?_put_append v p [] t
    rw [List.append_nil] at hput
    rw [hput, Option.getD_some, put, if_neg (by simp [h])]
    rfl
  · cases hx : at? p (t.put v q) with
    | none => rfl
    | some x =>
      rcases at?_put_elsewhere hlead hx with hx | ⟨rfl, -⟩
      · rwa [hx] at h
      · rfl

/-- **Among other properties that do not get in the way**, the properties under a qualifier are
arranged as they would be by themselves; and if there are none then no record or list stands at the
qualifier. -/
theorem at?_ofProperties_qualifier {qualifier : String} {l : List (String × String)}
    (h : ∀ e ∈ l, Displaces (pathOf e.1) (pathOf qualifier) →
      e.1 = qualifier ∨ ∃ r, e.1 = qualifier ++ "." ++ r) :
    (stripped qualifier l = [] →
        ((at? (pathOf qualifier) (ofProperties l)).getD .null).isPopulated = false) ∧
      (stripped qualifier l ≠ [] →
        at? (pathOf qualifier) (ofProperties l) = some (ofProperties (stripped qualifier l))) := by
  induction l using List.reverseRecOn with
  | nil =>
    obtain ⟨name, p, hpath⟩ := pathOf_eq_cons qualifier
    refine ⟨fun _ => ?_, fun hne => absurd rfl hne⟩
    rw [hpath]
    rfl
  | append_singleton l e ih =>
    obtain ⟨key, v⟩ := e
    obtain ⟨hnone, hsome⟩ := ih fun e he => h e (List.mem_append_left _ he)
    by_cases hunder : ∃ r, key = qualifier ++ "." ++ r
    · -- The property is put where the ones before it under the qualifier are.
      obtain ⟨r, rfl⟩ := hunder
      rw [stripped_concat_under, ofProperties_concat, pathOf_point, at?_put_append]
      refine ⟨fun hnil => absurd hnil (by simp), fun _ => congrArg some ?_⟩
      by_cases hnil : stripped qualifier l = []
      · rw [hnil, List.nil_append]
        exact put_pathOf_of_not_isPopulated (hnone hnil) r v
      · rw [hsome hnil, Option.getD_some, ofProperties_concat]
    · -- The property is put elsewhere, or at the qualifier or on the way to it as a text.
      have hother : ∀ r, key ≠ qualifier ++ "." ++ r := fun r hr => hunder ⟨r, hr⟩
      have hat : Displaces (pathOf key) (pathOf qualifier) → key = qualifier := fun hd =>
        (h (key, v) (by simp) hd).resolve_right hunder
      rw [stripped_concat_other hother, ofProperties_concat]
      refine ⟨fun hnil => ?_, fun hne => ?_⟩
      · exact isPopulated_at?_put (fun hlead => by rw [hat (Or.inl hlead)]) (hnone hnil) v
      · refine at?_put_of_stays (fun hclash => ?_) (hsome hne) (fun hlead => ?_) v
        · exact hclash.ne (by rw [hat (Or.inr hclash)])
        · exact ⟨by rw [hat (Or.inl hlead)], isPopulated_ofProperties hne⟩

/-- **Two ways to the properties under a qualifier.** If no key goes on with a bracket behind the
qualifier, or behind some of its parts, then the tree of the properties under it is what stands
there in the tree of all properties; and if there are no such properties, it is an empty record. -/
theorem ofSnapshot_under {s : Snapshot} {qualifier : String} (hne : qualifier ≠ "")
    (hname : '[' ∉ qualifier.toList)
    (hclear : ∀ q, Snapshot.Heads q qualifier →
      ∀ r, ¬ s.properties.contains (q ++ "[" ++ r) = true) :
    ((∃ r, s.properties.contains (qualifier ++ "." ++ r) = true) →
        at? ((partsOf qualifier.toList).map fun part => .field (String.ofList part))
          (ofSnapshot s "") = some (ofSnapshot s qualifier)) ∧
      ((¬ ∃ r, s.properties.contains (qualifier ++ "." ++ r) = true) →
        ofSnapshot s qualifier = .record []) := by
  have hall : ofSnapshot s "" = ofProperties s.properties.entries := rfl
  have hpath : (partsOf qualifier.toList).map (fun part => .field (String.ofList part)) =
      pathOf qualifier := (pathOf_eq_names hname).symm
  have hwhole := at?_ofProperties_qualifier fun e he => eq_of_displaces_of_clear hname hclear he
  rw [hpath, hall, ofSnapshot_eq, ← bound_eq_nil_iff hne]
  rw [← bound_eq_stripped hne] at hwhole
  refine ⟨fun hr => hwhole.2 fun hnil => (bound_eq_nil_iff hne).mp hnil hr, fun hnil => ?_⟩
  rw [hnil]
  rfl

/-- Properties with a text at a qualifier and one above it, and others beside it. -/
def layered : Snapshot :=
  ⟨.ofList [("a", "0"), ("a.b", "1"), ("a.b.c[1]", "2"), ("a.b.d", "3"), ("a.x[0]", "4")], ∅⟩

theorem ofSnapshot_under_layered :
    (ofSnapshot layered "").at? [.field "a", .field "b"] = some (ofSnapshot layered "a.b") := by
  have hheads : ∀ q, Snapshot.Heads q "a.b" → q.toList = ['a', '.', 'b'] ∨ q.toList = ['a'] := by
    rintro q (rfl | ⟨r, hr⟩)
    · exact Or.inl rfl
    · have hchars : ['a', '.', 'b'] = q.toList ++ '.' :: r.toList := by
        simpa using congrArg String.toList hr
      rcases hq : q.toList with _ | ⟨c, _ | ⟨d, _ | ⟨e, cs⟩⟩⟩ <;> rw [hq] at hchars <;>
        simp at hchars
      exact Or.inr (by rw [hchars.1])
  refine (@ofSnapshot_under layered "a.b" (by decide) (by decide) ?_).1
    ⟨"d", by decide +kernel⟩
  intro q hq r hr
  have hkey : q ++ "[" ++ r ∈ ["a", "a.b", "a.b.c[1]", "a.b.d", "a.x[0]"] :=
    SortedMap.mem_keys.mpr hr
  have hchars : ∀ key : String, q ++ "[" ++ r = key → q.toList ++ '[' :: r.toList = key.toList := by
    rintro key rfl
    simp
  simp only [List.mem_cons, List.not_mem_nil, or_false] at hkey
  rcases hheads q hq with h | h <;>
    rcases hkey with hkey | hkey | hkey | hkey | hkey <;>
      have hc := hchars _ hkey <;> rw [h] at hc <;> simp at hc

end Tree

end Binding

end LiveConfig
