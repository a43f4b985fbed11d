import LiveConfig.Binding.KeyPath
import Mathlib.Data.List.TakeWhile

/-!
# Keys that are put together

A key is put together of names, with points between them, and of indices in brackets. Its path is
put together likewise: what stands behind a point adds its own path to the end, and an index in
brackets adds itself. The one thing that can go wrong is an index behind a part that does not end
where an index may begin; such a part is the name of a field as it stands, and no index makes it
anything else.

## Main definitions

* `Binding.Extensible` — an index may be put behind a key

## Main results

* `Binding.pathOf_point` — the path of two keys with a point between them
* `Binding.pathOf_bracket` — the path of a key with an index behind it
-/

namespace LiveConfig

namespace Decimal

/-- Digits are read to their end, wherever the number begins. -/
theorem naturalFrom_eq {cs : List Char} (h : ∀ c ∈ cs, c.isDigit = true) (acc : Nat) :
    naturalFrom acc cs = some (Nat.ofDigitChars 10 cs acc) := by
  induction cs generalizing acc with
  | nil => rfl
  | cons c cs ih =>
    obtain ⟨hc, hcs⟩ := List.forall_mem_cons.mp h
    rw [naturalFrom, if_pos hc, ih hcs, Nat.mul_comm acc 10]
    rfl

/-- A number without a sign is read from its first character on. -/
theorem natural?_of_ne_plus {c : Char} (hc : c ≠ '+') (r : List Char) :
    natural? (c :: r) = naturalFrom 0 (c :: r) := by
  rw [natural?]
  · exact List.cons_ne_nil c r
  · exact fun h => hc (List.cons.inj h).1
  · exact fun _ h => hc (List.cons.inj h).1

/-- A number is read back from its digits. -/
theorem natural?_toDigits (n : Nat) : natural? (Nat.toDigits 10 n) = some n := by
  have hdigits : ∀ c ∈ Nat.toDigits 10 n, c.isDigit = true := fun c hc =>
    Nat.isDigit_of_mem_toDigits (by decide) (by decide) hc
  have hread : natural? (Nat.toDigits 10 n) = naturalFrom 0 (Nat.toDigits 10 n) := by
    cases hcs : Nat.toDigits 10 n with
    | nil => exact absurd hcs Nat.toDigits_ne_nil
    | cons c cs =>
      have hplus : c ≠ '+' := by
        rintro rfl
        exact absurd (hdigits '+' (hcs ▸ List.mem_cons_self)) (by decide)
      exact natural?_of_ne_plus hplus cs
  rw [hread, naturalFrom_eq hdigits, Nat.ofDigitChars_toDigits (by decide) (by decide)]

end Decimal

namespace Binding

/-! ### Parts -/

theorem partsOf_ne_nil (cs : List Char) : partsOf cs ≠ [] := by
  cases cs with
  | nil => simp [partsOf]
  | cons c cs =>
    rw [partsOf]
    split
    · simp
    · split <;> simp

/-- A character that is no point is put before the first part. -/
theorem partsOf_cons {c : Char} (hc : c ≠ '.') (cs : List Char) :
    ∃ p ps, partsOf cs = p :: ps ∧ partsOf (c :: cs) = (c :: p) :: ps := by
  cases hps : partsOf cs with
  | nil => exact absurd hps (partsOf_ne_nil cs)
  | cons p ps => exact ⟨p, ps, rfl, by rw [partsOf, if_neg hc, hps]⟩

/-- At a point one part ends and another one begins. -/
theorem partsOf_point (a b : List Char) : partsOf (a ++ '.' :: b) = partsOf a ++ partsOf b := by
  induction a with
  | nil => simp [partsOf]
  | cons c a ih =>
    by_cases hc : c = '.'
    · simp [partsOf, hc, ih]
    · obtain ⟨p, ps, ha, hca⟩ := partsOf_cons hc a
      obtain ⟨q, qs, hb, hcb⟩ := partsOf_cons hc (a ++ '.' :: b)
      rw [ih, ha] at hb
      obtain ⟨rfl, rfl⟩ := List.cons.inj hb
      rw [List.cons_append, hcb, hca]
      rfl

/-- What has no point in it goes on with the last part. -/
theorem partsOf_append {b : List Char} (hb : '.' ∉ b) (a : List Char) :
    ∃ ps last, partsOf a = ps ++ [last] ∧ partsOf (a ++ b) = ps ++ [last ++ b] := by
  induction a with
  | nil =>
    refine ⟨[], [], rfl, ?_⟩
    induction b with
    | nil => rfl
    | cons c b ih =>
      obtain ⟨hc, hb⟩ := List.ne_and_not_mem_of_not_mem_cons hb
      obtain ⟨p, ps, hp, hcb⟩ := partsOf_cons hc.symm b
      rw [List.nil_append, List.nil_append] at ih ⊢
      rw [ih hb] at hp
      obtain ⟨rfl, rfl⟩ := List.cons.inj hp
      exact hcb
  | cons c a ih =>
    obtain ⟨ps, last, ha, hab⟩ := ih
    by_cases hc : c = '.'
    · exact ⟨[] :: ps, last, by simp [partsOf, hc, ha], by simp [partsOf, hc, hab]⟩
    · obtain ⟨p, qs, hq, hca⟩ := partsOf_cons hc a
      obtain ⟨p', qs', hq', hcab⟩ := partsOf_cons hc (a ++ b)
      rw [List.cons_append, hca, hcab]
      rw [ha] at hq
      rw [hab] at hq'
      cases ps with
      | nil =>
        obtain ⟨rfl, rfl⟩ := List.cons.inj hq
        obtain ⟨rfl, rfl⟩ := List.cons.inj hq'
        exact ⟨[], c :: last, rfl, rfl⟩
      | cons r rs =>
        obtain ⟨rfl, rfl⟩ := List.cons.inj hq
        obtain ⟨rfl, rfl⟩ := List.cons.inj hq'
        exact ⟨(c :: r) :: rs, last, rfl, rfl⟩

/-! ### Indices -/

/-- An index is read back from its digits. -/
theorem index?_toDigits {i : Nat} (hi : i < listLimit) : index? (Nat.toDigits 10 i) = some i := by
  rw [index?, Decimal.natural?_toDigits, Option.filter_some, if_pos (decide_eq_true hi)]

/-- Behind an open bracket everything up to the closing one is an index. -/
theorem indicesFrom_bracket {inner : List Char} (h : ']' ∉ inner) {i : Nat}
    {acc : List Char} (hi : index? (acc.reverse ++ inner) = some i) (r : List Char) :
    indicesFrom (some acc) (inner ++ ']' :: r) = (indicesFrom none r).map (i :: ·) := by
  induction inner generalizing acc with
  | nil =>
    rw [List.append_nil] at hi
    rw [List.nil_append, indicesFrom, if_pos rfl, hi]
  | cons c inner ih =>
    obtain ⟨hc, hinner⟩ := List.ne_and_not_mem_of_not_mem_cons h
    rw [List.cons_append, indicesFrom, if_neg hc.symm]
    refine ih hinner ?_
    rwa [List.reverse_cons, List.append_assoc]

/-- Indices may stand behind indices. -/
theorem indicesFrom_append {a b : List Char} {begun : Option (List Char)} {is js : List Nat}
    (ha : indicesFrom begun a = some is) (hb : indicesFrom none b = some js) :
    indicesFrom begun (a ++ b) = some (is ++ js) := by
  induction a generalizing begun is with
  | nil =>
    cases begun with
    | none => cases ha; exact hb
    | some inner => cases ha
  | cons c a ih =>
    cases begun with
    | none =>
      rw [indicesFrom] at ha
      rw [List.cons_append, indicesFrom]
      split at ha
      · rename_i hc
        rw [if_pos hc]
        exact ih ha
      · cases ha
    | some inner =>
      rw [indicesFrom] at ha
      rw [List.cons_append, indicesFrom]
      split at ha
      · rename_i hc
        rw [if_pos hc]
        split at ha
        · obtain ⟨is', his, rfl⟩ := Option.map_eq_some_iff.mp ha
          rw [ih his]
          rfl
        · cases ha
      · rename_i hc
        rw [if_neg hc]
        exact ih ha

/-- An index in brackets. -/
def bracket (i : Nat) : List Char := '[' :: Nat.toDigits 10 i ++ [']']

theorem not_mem_toDigits {c : Char} (hc : c.isDigit = false) (i : Nat) :
    c ∉ Nat.toDigits 10 i := by
  intro h
  rw [Nat.isDigit_of_mem_toDigits (by decide) (by decide) h] at hc
  cases hc

theorem indicesFrom_bracket_eq {i : Nat} (hi : i < listLimit) :
    indicesFrom none (bracket i) = some [i] := by
  have hindex : index? (([] : List Char).reverse ++ Nat.toDigits 10 i) = some i :=
    index?_toDigits hi
  rw [bracket, List.cons_append, indicesFrom, if_pos rfl,
    indicesFrom_bracket (not_mem_toDigits (by decide) i) hindex]
  rfl

theorem point_not_mem_bracket (i : Nat) : '.' ∉ bracket i := by
  simp [bracket, not_mem_toDigits (c := '.') rfl i]

/-! ### Steps -/

/-- What is added behind a part, and begins with a bracket, leaves its name as it is. -/
theorem span_bracket (a r : List Char) :
    (a ++ '[' :: r).takeWhile (· ≠ '[') = a.takeWhile (· ≠ '[') ∧
      (a ++ '[' :: r).dropWhile (· ≠ '[') = a.dropWhile (· ≠ '[') ++ '[' :: r := by
  induction a with
  | nil => simp
  | cons c a ih =>
    by_cases hc : c = '['
    · simp [hc]
    · simpa [hc] using ih

/-- The brackets of a part, if it has any, are indices to its end. -/
def Indexed (part : List Char) : Prop :=
  (indicesFrom none (part.dropWhile (· ≠ '['))).isSome = true

/-- An index behind a part is one more step. -/
theorem segmentsOf_bracket {part : List Char} (h : Indexed part) {i : Nat} (hi : i < listLimit) :
    segmentsOf (part ++ bracket i) = segmentsOf part ++ [.index i] ∧
      Indexed (part ++ bracket i) := by
  obtain ⟨is, his⟩ := Option.isSome_iff_exists.mp h
  obtain ⟨hname, hrest⟩ := span_bracket part (Nat.toDigits 10 i ++ [']'])
  have hall : indicesFrom none ((part ++ bracket i).dropWhile (· ≠ '[')) = some (is ++ [i]) := by
    change indicesFrom none ((part ++ '[' :: (Nat.toDigits 10 i ++ [']'])).dropWhile _) = _
    rw [hrest]
    exact indicesFrom_append his (indicesFrom_bracket_eq hi)
  have htake : (part ++ bracket i).takeWhile (· ≠ '[') = part.takeWhile (· ≠ '[') := hname
  refine ⟨?_, by rw [Indexed, hall]; rfl⟩
  simp only [segmentsOf]
  rw [hall, his, htake]
  simp

/-- A part without brackets is a name. -/
theorem segmentsOf_name {part : List Char} (h : '[' ∉ part) :
    segmentsOf part = [.field (String.ofList part)] ∧ Indexed part := by
  have hall : ∀ c ∈ part, (c ≠ '[') := fun c hc hbracket => h (hbracket ▸ hc)
  have htake : part.takeWhile (· ≠ '[') = part := by
    simpa [List.takeWhile_eq_self_iff] using hall
  have hdrop : part.dropWhile (· ≠ '[') = [] := by
    simpa [List.dropWhile_eq_nil_iff] using hall
  refine ⟨?_, by rw [Indexed, hdrop]; rfl⟩
  simp only [segmentsOf]
  rw [hdrop, htake]
  rfl

/-! ### Paths -/

/-- An index may be put behind a key: the brackets of its last part are indices to its end. -/
def Extensible (key : String) : Prop :=
  ∃ parts last, partsOf key.toList = parts ++ [last] ∧ Indexed last

/-- What stands behind a point adds its own path. -/
theorem pathOf_point (a b : String) : pathOf (a ++ "." ++ b) = pathOf a ++ pathOf b := by
  have hkey : (a ++ "." ++ b).toList = a.toList ++ '.' :: b.toList := by simp
  rw [pathOf, hkey, partsOf_point, List.flatMap_append]
  rfl

/-- A name by itself is a path of one step. -/
theorem pathOf_name {key : String} (hpoint : '.' ∉ key.toList) (hbracket : '[' ∉ key.toList) :
    pathOf key = [.field key] ∧ Extensible key := by
  obtain ⟨ps, last, hnil, hparts⟩ := partsOf_append hpoint []
  obtain ⟨rfl, rfl⟩ : ps = [] ∧ last = [] := by
    cases ps with
    | nil => exact ⟨rfl, (List.cons.inj hnil).1.symm⟩
    | cons p ps => exact absurd (congrArg List.length hnil) (by simp [partsOf])
  have hkey : partsOf key.toList = [key.toList] := hparts
  obtain ⟨hsegments, hindexed⟩ := segmentsOf_name hbracket
  constructor
  · rw [pathOf, hkey, List.flatMap_singleton, hsegments, String.ofList_toList]
  · exact ⟨[], key.toList, hkey, hindexed⟩

theorem extensible_point (a : String) {b : String} (hb : Extensible b) :
    Extensible (a ++ "." ++ b) := by
  have hkey : (a ++ "." ++ b).toList = a.toList ++ '.' :: b.toList := by simp
  obtain ⟨parts, last, hparts, hlast⟩ := hb
  exact ⟨partsOf a.toList ++ parts, last, by rw [hkey, partsOf_point, hparts, List.append_assoc],
    hlast⟩

/-- **An index behind a key is one more step.** -/
theorem pathOf_bracket {key : String} (h : Extensible key) {i : Nat} (hi : i < listLimit) :
    pathOf (key ++ "[" ++ toString i ++ "]") = pathOf key ++ [.index i] ∧
      Extensible (key ++ "[" ++ toString i ++ "]") := by
  have hkey : (key ++ "[" ++ toString i ++ "]").toList = key.toList ++ bracket i := by
    simp [bracket, toString, Nat.toList_repr]
  obtain ⟨parts, last, hparts, hlast⟩ := h
  obtain ⟨parts', last', hsame, hparts'⟩ := partsOf_append (point_not_mem_bracket i) key.toList
  obtain ⟨rfl, hlasts⟩ := List.append_inj' (hparts.symm.trans hsame) rfl
  obtain rfl : last = last' := (List.cons.inj hlasts).1
  obtain ⟨hsegments, hindexed⟩ := segmentsOf_bracket hlast hi
  constructor
  · rw [pathOf, pathOf, hkey, hparts', hparts]
    simp [hsegments]
  · exact ⟨parts, last ++ bracket i, by rw [hkey, hparts'], hindexed⟩

end Binding

end LiveConfig
