import LiveConfig.Proofs.Projection
import Mathlib.Data.List.Forall2

/-!
# How a path may be spelled

The path of a key tells which key it was, but for one thing. What stands between brackets is an
index if it is read as a small enough number, and a number may be written with zeros before its
digits, and with a plus sign before these. So `a[0]`, `a[00]` and `a[+0]` are three keys with one
path, and of three such properties the tree has only the last one. A part of a key that is not a
name with indices behind it, to its very end, names a field as it stands, so that there is no second
spelling of it.

Which texts are read as an index comes first (`Binding.index?_eq_some_iff`), and then which parts
are read as a name with indices (`Binding.segmentsOf_composed`,
`Binding.segmentsOf_of_not_composed`). What two keys with the same path have in common follows part
by part, because the steps of a part begin with a field and go on with indices.

## Main definitions

* `Binding.Numeral` — a spelling of an index
* `Binding.Composed` — a part of a key is a name with indices behind it
* `Binding.Padded` — an index in a part is spelled with more than its digits
* `Binding.SameSteps` — two parts differ at most in how their indices are spelled
* `Binding.printed` — steps written out, each index by its digits
* `Binding.PlainKey` — no index in a key is padded

## Main results

* `Binding.printed_segmentsOf_iff` — the parts that are printed again as they were
* `Binding.pathOf_eq_iff` — the keys that have the same path
* `Binding.path_determines_key` — both, and what they come to for the tree of some properties
-/

namespace LiveConfig

namespace Decimal

/-! ### Digits -/

theorem exists_digitChar {c : Char} (h : c.isDigit = true) : ∃ d < 10, c = d.digitChar := by
  obtain ⟨hlow, hhigh⟩ : 48 ≤ c.toNat ∧ c.toNat ≤ 57 := by
    simpa [Char.isDigit, UInt32.le_iff_toNat_le] using h
  have hd : c.toNat - 48 < 10 := by omega
  refine ⟨c.toNat - 48, hd, Char.toNat_inj.mp ?_⟩
  rw [Nat.toNat_digitChar_of_lt_ten hd]
  omega

/-- Digits are those of their number, maybe with zeros before them. -/
theorem exists_zeros_append_toDigits {ds : List Char} (h : ∀ c ∈ ds, c.isDigit = true)
    (hne : ds ≠ []) :
    ∃ zeros, ds = List.replicate zeros '0' ++ Nat.toDigits 10 (Nat.ofDigitChars 10 ds 0) := by
  induction ds using List.reverseRecOn with
  | nil => exact absurd rfl hne
  | append_singleton ds c ih =>
    obtain ⟨d, hd, rfl⟩ := exists_digitChar (h c (by simp))
    have hvalue : Nat.ofDigitChars 10 (ds ++ [d.digitChar]) 0 =
        10 * Nat.ofDigitChars 10 ds 0 + d := by
      rw [Nat.ofDigitChars_append, Nat.ofDigitChars_cons_digitChar_of_lt_ten hd,
        Nat.ofDigitChars_nil]
    by_cases hds : ds = []
    · refine ⟨0, ?_⟩
      rw [hvalue, hds, Nat.ofDigitChars_nil, Nat.mul_zero, Nat.zero_add,
        Nat.toDigits_of_lt_base hd]
      rfl
    · obtain ⟨zeros, hzeros⟩ := ih (fun c hc => h c (List.mem_append_left _ hc)) hds
      rw [hvalue]
      rcases Nat.eq_zero_or_pos (Nat.ofDigitChars 10 ds 0) with hzero | hpos
      · -- The digits so far are all zeros, and the number is its last digit.
        refine ⟨zeros + 1, ?_⟩
        rw [hzero, Nat.toDigits_zero] at hzeros
        rw [hzero, Nat.mul_zero, Nat.zero_add, Nat.toDigits_of_lt_base hd,
          List.replicate_succ', ← hzeros]
      · refine ⟨zeros, ?_⟩
        rw [← Nat.toDigits_append_toDigits (by decide) hpos hd, Nat.toDigits_of_lt_base hd,
          ← List.append_assoc, ← hzeros]

theorem naturalFrom_eq_some_iff {cs : List Char} {acc n : Nat} : naturalFrom acc cs = some n ↔
    (∀ c ∈ cs, c.isDigit = true) ∧ Nat.ofDigitChars 10 cs acc = n := by
  constructor
  · intro h
    have hdigits : ∀ c ∈ cs, c.isDigit = true := by
      induction cs generalizing acc with
      | nil => exact List.forall_mem_nil _
      | cons c cs ih =>
        rw [naturalFrom] at h
        split at h
        · rename_i hc
          exact List.forall_mem_cons.mpr ⟨hc, ih h⟩
        · cases h
    rw [naturalFrom_eq hdigits] at h
    exact ⟨hdigits, Option.some.inj h⟩
  · rintro ⟨hdigits, rfl⟩
    exact naturalFrom_eq hdigits acc

/-- A number is read from at least one digit, with or without a plus sign before the first. -/
theorem natural?_eq_some_iff {cs : List Char} {n : Nat} : natural? cs = some n ↔
    ∃ ds, (cs = ds ∨ cs = '+' :: ds) ∧ ds ≠ [] ∧ (∀ c ∈ ds, c.isDigit = true) ∧
      Nat.ofDigitChars 10 ds 0 = n := by
  have hplus : ¬ '+'.isDigit = true := by decide
  cases cs with
  | nil => simp [natural?]
  | cons c r =>
    by_cases hc : c = '+'
    · subst hc
      cases r with
      | nil => simp [natural?, hplus]
      | cons d r =>
        have hread : natural? ('+' :: d :: r) = naturalFrom 0 (d :: r) := by
          rw [natural?]
          exact List.cons_ne_nil d r
        rw [hread, naturalFrom_eq_some_iff]
        constructor
        · intro h
          exact ⟨d :: r, Or.inr rfl, List.cons_ne_nil d r, h⟩
        · rintro ⟨ds, rfl | hds, -, hdigits⟩
          · exact absurd (hdigits.1 '+' List.mem_cons_self) hplus
          · obtain rfl := (List.cons.inj hds).2
            exact hdigits
    · rw [natural?_of_ne_plus hc, naturalFrom_eq_some_iff]
      constructor
      · intro h
        exact ⟨c :: r, Or.inl rfl, List.cons_ne_nil c r, h⟩
      · rintro ⟨ds, rfl | hds, -, hdigits⟩
        · exact hdigits
        · exact absurd (List.cons.inj hds).1 hc

end Decimal

namespace Binding

/-! ### Spellings of an index -/

/-- A spelling of an index: its digits, maybe with zeros before them, maybe with a plus sign before
these. -/
structure Numeral where
  plus : Bool
  zeros : Nat
  value : Nat
  value_lt : value < listLimit

namespace Numeral

/-- The digits of a spelling, with the zeros before them. -/
def digits (n : Numeral) : List Char := List.replicate n.zeros '0' ++ Nat.toDigits 10 n.value

/-- The text of a spelling. -/
def text (n : Numeral) : List Char := (if n.plus then ['+'] else []) ++ n.digits

/-- Nothing stands before the digits. -/
def Plain (n : Numeral) : Prop := n.plus = false ∧ n.zeros = 0

/-- The text of a spelling in brackets. -/
def bracketed (n : Numeral) : List Char := '[' :: (n.text ++ [']'])

theorem isDigit_of_mem_digits {n : Numeral} {c : Char} (h : c ∈ n.digits) : c.isDigit = true := by
  rcases List.mem_append.mp h with h | h
  · rw [List.eq_of_mem_replicate h]
    rfl
  · exact Nat.isDigit_of_mem_toDigits (by decide) (by decide) h

theorem close_not_mem_text (n : Numeral) : ']' ∉ n.text := by
  have hdigits : ']' ∉ n.digits := by
    intro h
    cases isDigit_of_mem_digits h
  rw [text, List.mem_append, not_or]
  refine ⟨?_, hdigits⟩
  split <;> decide

/-- A spelling of an index is its digits if and only if nothing stands before them. -/
theorem text_eq_toDigits_iff (n : Numeral) : n.text = Nat.toDigits 10 n.value ↔ n.Plain := by
  constructor
  · intro h
    have hlength := congrArg List.length h
    rw [text, digits, List.length_append, List.length_append, List.length_replicate] at hlength
    have hplus : (if n.plus then ['+'] else []).length = 0 := by omega
    refine ⟨?_, by omega⟩
    cases hsign : n.plus with
    | false => rfl
    | true => simp [hsign] at hplus
  · rintro ⟨hplus, hzeros⟩
    simp [text, digits, hplus, hzeros]

end Numeral

/-- **Which texts are read as an index.** -/
theorem index?_eq_some_iff {cs : List Char} {i : Nat} :
    index? cs = some i ↔ ∃ n : Numeral, n.value = i ∧ n.text = cs := by
  rw [index?, Option.filter_eq_some_iff, Decimal.natural?_eq_some_iff]
  constructor
  · rintro ⟨⟨ds, hcs, hne, hdigits, rfl⟩, hlt⟩
    obtain ⟨zeros, hzeros⟩ := Decimal.exists_zeros_append_toDigits hdigits hne
    have hvalue := of_decide_eq_true hlt
    rcases hcs with rfl | rfl
    · exact ⟨⟨false, zeros, _, hvalue⟩, rfl, hzeros.symm⟩
    · exact ⟨⟨true, zeros, _, hvalue⟩, rfl, congrArg ('+' :: ·) hzeros.symm⟩
  · rintro ⟨n, rfl, rfl⟩
    refine ⟨⟨n.digits, ?_, ?_, fun c => Numeral.isDigit_of_mem_digits, ?_⟩,
      decide_eq_true n.value_lt⟩
    · rw [Numeral.text]
      cases n.plus with
      | false => exact Or.inl rfl
      | true => exact Or.inr rfl
    · simp [Numeral.digits, Nat.toDigits_ne_nil]
    · rw [Numeral.digits, Nat.ofDigitChars_append, Nat.ofDigitChars_replicate_zero, Nat.mul_zero,
        Nat.ofDigitChars_ten_toDigits]

/-! ### Parts of a key -/

/-- The open bracket, if there is one, and the characters since then. -/
def openedText : Option (List Char) → List Char
  | none => []
  | some inner => '[' :: inner.reverse

/-- What is read as indices is made of their spellings in brackets. -/
theorem exists_numerals {begun : Option (List Char)} {cs : List Char} {is : List Nat}
    (h : indicesFrom begun cs = some is) : ∃ ns : List Numeral,
      ns.map Numeral.value = is ∧ openedText begun ++ cs = ns.flatMap Numeral.bracketed := by
  induction cs generalizing begun is with
  | nil =>
    cases begun with
    | none =>
      obtain rfl := Option.some.inj h
      exact ⟨[], rfl, rfl⟩
    | some inner => cases h
  | cons c cs ih =>
    cases begun with
    | none =>
      rw [indicesFrom] at h
      split at h
      · rename_i hc
        rw [hc]
        exact ih h
      · cases h
    | some inner =>
      rw [indicesFrom] at h
      split at h
      · -- The bracket is closed, and what stands in it is an index.
        rename_i hc
        split at h
        · rename_i i hi
          obtain ⟨js, hjs, rfl⟩ := Option.map_eq_some_iff.mp h
          obtain ⟨n, rfl, htext⟩ := index?_eq_some_iff.mp hi
          obtain ⟨ns, rfl, hcs⟩ := ih hjs
          refine ⟨n :: ns, rfl, ?_⟩
          rw [List.flatMap_cons, ← hcs, Numeral.bracketed, htext, hc]
          simp [openedText]
        · cases h
      · obtain ⟨ns, hns, hcs⟩ := ih h
        refine ⟨ns, hns, ?_⟩
        rw [← hcs]
        simp [openedText]

theorem indicesFrom_bracketed (n : Numeral) : indicesFrom none n.bracketed = some [n.value] := by
  have hindex : index? (([] : List Char).reverse ++ n.text) = some n.value :=
    index?_eq_some_iff.mpr ⟨n, rfl, rfl⟩
  rw [Numeral.bracketed, indicesFrom, if_pos rfl,
    indicesFrom_bracket n.close_not_mem_text hindex]
  rfl

theorem indicesFrom_flatMap_bracketed (ns : List Numeral) :
    indicesFrom none (ns.flatMap Numeral.bracketed) = some (ns.map Numeral.value) := by
  induction ns with
  | nil => rfl
  | cons n ns ih =>
    rw [List.flatMap_cons]
    exact indicesFrom_append (indicesFrom_bracketed n) ih

/-- A part of a key is a name with indices in brackets behind it, each in one of its spellings. -/
structure Composed (part name : List Char) (numerals : List Numeral) : Prop where
  bracket_not_mem : '[' ∉ name
  part_eq : part = name ++ numerals.flatMap Numeral.bracketed

/-- An index in a part of a key is spelled with more than its digits. -/
def Padded (part : List Char) : Prop :=
  ∃ name numerals, Composed part name numerals ∧ ∃ n ∈ numerals, ¬ n.Plain

/-- Two parts of keys differ at most in how their indices are spelled. -/
def SameSteps (part part' : List Char) : Prop :=
  part = part' ∨ ∃ name numerals numerals', Composed part name numerals ∧
    Composed part' name numerals' ∧ numerals.map Numeral.value = numerals'.map Numeral.value

theorem Composed.span {part name : List Char} {ns : List Numeral} (h : Composed part name ns) :
    part.takeWhile (· ≠ '[') = name ∧
      part.dropWhile (· ≠ '[') = ns.flatMap Numeral.bracketed := by
  have hall : ∀ c ∈ name, decide (c ≠ '[') = true := fun c hc =>
    decide_eq_true fun heq => h.bracket_not_mem (heq ▸ hc)
  have hstop : (ns.flatMap Numeral.bracketed).takeWhile (· ≠ '[') = [] ∧
      (ns.flatMap Numeral.bracketed).dropWhile (· ≠ '[') = ns.flatMap Numeral.bracketed := by
    cases ns with
    | nil => exact ⟨rfl, rfl⟩
    | cons n ns => exact ⟨rfl, rfl⟩
  rw [h.part_eq, List.takeWhile_append_of_pos hall, List.dropWhile_append_of_pos hall, hstop.1,
    hstop.2, List.append_nil]
  exact ⟨rfl, rfl⟩

/-- The steps of a name with indices behind it. -/
theorem segmentsOf_composed {part name : List Char} {ns : List Numeral}
    (h : Composed part name ns) :
    segmentsOf part = .field (String.ofList name) :: (ns.map Numeral.value).map .index := by
  obtain ⟨htake, hdrop⟩ := h.span
  simp only [segmentsOf]
  rw [hdrop, indicesFrom_flatMap_bracketed, htake]

/-- What is no name with indices behind it names a field as it stands. -/
theorem segmentsOf_of_not_composed {part : List Char}
    (h : ¬ ∃ name ns, Composed part name ns) :
    segmentsOf part = [.field (String.ofList part)] := by
  simp only [segmentsOf]
  split
  · rename_i is his
    obtain ⟨ns, -, hns⟩ := exists_numerals his
    refine absurd ⟨part.takeWhile (· ≠ '['), ns, fun hmem => ?_, ?_⟩ h
    · simpa using List.mem_takeWhile_imp hmem
    · rw [← hns, openedText, List.nil_append, List.takeWhile_append_dropWhile]
  · rfl

/-- The steps of a part are a field and indices below the limit. -/
theorem exists_segmentsOf_eq (part : List Char) : ∃ name, ∃ is : List Nat,
    segmentsOf part = .field name :: is.map .index ∧ ∀ i ∈ is, i < listLimit := by
  by_cases h : ∃ name ns, Composed part name ns
  · obtain ⟨name, ns, h⟩ := h
    refine ⟨_, _, segmentsOf_composed h, fun i hi => ?_⟩
    obtain ⟨n, -, rfl⟩ := List.mem_map.mp hi
    exact n.value_lt
  · exact ⟨_, [], segmentsOf_of_not_composed h, List.forall_mem_nil _⟩

theorem indices_inj {is js : List Nat}
    (h : is.map Segment.index = js.map Segment.index) : is = js :=
  List.map_injective_iff.mpr (fun _ _ he => Segment.index.inj he) h

/-- What has the same steps as a name with indices is that name with the same indices. -/
theorem Composed.of_segmentsOf_eq {part part' name : List Char} {ns : List Numeral}
    (h : Composed part name ns) (hsteps : segmentsOf part = segmentsOf part') :
    ∃ ns', Composed part' name ns' ∧ ns.map Numeral.value = ns'.map Numeral.value := by
  rw [segmentsOf_composed h] at hsteps
  by_cases h' : ∃ name' ns', Composed part' name' ns'
  · obtain ⟨name', ns', h'⟩ := h'
    rw [segmentsOf_composed h'] at hsteps
    obtain ⟨hname, hvalues⟩ := List.cons.inj hsteps
    obtain rfl := name_inj hname
    exact ⟨ns', h', indices_inj hvalues⟩
  · rw [segmentsOf_of_not_composed h'] at hsteps
    obtain rfl := name_inj (List.cons.inj hsteps).1
    exact absurd ⟨name, [], h.bracket_not_mem, (List.append_nil _).symm⟩ h'

/-- **Which parts have the same steps.** -/
theorem segmentsOf_eq_iff {part part' : List Char} :
    segmentsOf part = segmentsOf part' ↔ SameSteps part part' := by
  constructor
  · intro hsteps
    by_cases h : ∃ name ns, Composed part name ns
    · obtain ⟨name, ns, h⟩ := h
      obtain ⟨ns', h', hvalues⟩ := h.of_segmentsOf_eq hsteps
      exact Or.inr ⟨name, ns, ns', h, h', hvalues⟩
    · have h' : ¬ ∃ name ns, Composed part' name ns := by
        rintro ⟨name, ns, h'⟩
        obtain ⟨ns', hpart, -⟩ := h'.of_segmentsOf_eq hsteps.symm
        exact h ⟨name, ns', hpart⟩
      rw [segmentsOf_of_not_composed h, segmentsOf_of_not_composed h'] at hsteps
      exact Or.inl (name_inj (List.cons.inj hsteps).1)
  · rintro (rfl | ⟨name, ns, ns', h, h', hvalues⟩)
    · rfl
    · rw [segmentsOf_composed h, segmentsOf_composed h', hvalues]

/-! ### Paths written out -/

/-- A step as it is written: a field by its name, an index by its digits in brackets. -/
def Segment.text : Segment → List Char
  | .field name => name.toList
  | .index i => bracket i

/-- The steps of a part written out. -/
def printed (segments : List Segment) : List Char := segments.flatMap Segment.text

theorem printed_composed {part name : List Char} {ns : List Numeral}
    (h : Composed part name ns) :
    printed (segmentsOf part) = name ++ ns.flatMap fun n => bracket n.value := by
  rw [segmentsOf_composed h, printed, List.flatMap_cons, Segment.text, String.toList_ofList,
    List.map_map, List.flatMap_map]
  rfl

/-- What stands before the first closing bracket, and what behind it. -/
theorem append_close_inj {a b r r' : List Char} (ha : ']' ∉ a) (hb : ']' ∉ b)
    (h : a ++ ']' :: r = b ++ ']' :: r') : a = b ∧ r = r' := by
  induction a generalizing b with
  | nil =>
    cases b with
    | nil => exact ⟨rfl, (List.cons.inj h).2⟩
    | cons d b => exact absurd ((List.cons.inj h).1 ▸ List.mem_cons_self) hb
  | cons c a ih =>
    cases b with
    | nil => exact absurd ((List.cons.inj h).1 ▸ List.mem_cons_self) ha
    | cons d b =>
      obtain ⟨rfl, htail⟩ := List.cons.inj h
      obtain ⟨rfl, hrest⟩ := ih (List.not_mem_of_not_mem_cons ha)
        (List.not_mem_of_not_mem_cons hb) htail
      exact ⟨rfl, hrest⟩

theorem flatMap_bracketed_eq_iff {ns : List Numeral} :
    (ns.flatMap fun n => bracket n.value) = ns.flatMap Numeral.bracketed ↔ ∀ n ∈ ns, n.Plain := by
  induction ns with
  | nil => simp
  | cons n ns ih =>
    have hdigits : ']' ∉ Nat.toDigits 10 n.value := not_mem_toDigits rfl _
    rw [List.forall_mem_cons, ← ih, ← n.text_eq_toDigits_iff, List.flatMap_cons, List.flatMap_cons]
    constructor
    · intro h
      have hrow : Nat.toDigits 10 n.value ++ ']' :: (ns.flatMap fun n => bracket n.value) =
          n.text ++ ']' :: ns.flatMap Numeral.bracketed := by
        simpa [bracket, Numeral.bracketed] using h
      obtain ⟨htext, hrest⟩ := append_close_inj hdigits n.close_not_mem_text hrow
      exact ⟨htext.symm, hrest⟩
    · rintro ⟨htext, hrest⟩
      rw [hrest, Numeral.bracketed, htext]
      rfl

/-- **The parts that are printed again as they were** are those without a padded index. -/
theorem printed_segmentsOf_iff (part : List Char) :
    printed (segmentsOf part) = part ↔ ¬ Padded part := by
  constructor
  · rintro hprinted ⟨name, ns, hpart, n, hn, hplain⟩
    rw [printed_composed hpart, hpart.part_eq] at hprinted
    exact hplain (flatMap_bracketed_eq_iff.mp (List.append_cancel_left hprinted) n hn)
  · intro hpadded
    by_cases h : ∃ name ns, Composed part name ns
    · obtain ⟨name, ns, h⟩ := h
      have hplain : ∀ n ∈ ns, n.Plain := fun n hn =>
        not_not.mp fun hplain => hpadded ⟨name, ns, h, n, hn, hplain⟩
      rw [printed_composed h, flatMap_bracketed_eq_iff.mpr hplain, ← h.part_eq]
    · rw [segmentsOf_of_not_composed h]
      simp [printed, Segment.text]

/-! ### Whole keys -/

/-- Indices end where the path does, or where the next part begins. -/
theorem indices_append_inj {is js : List Nat} {parts parts' : List (List Char)}
    (h : is.map Segment.index ++ parts.flatMap segmentsOf =
      js.map Segment.index ++ parts'.flatMap segmentsOf) :
    is = js ∧ parts.flatMap segmentsOf = parts'.flatMap segmentsOf := by
  have hstop : ∀ (parts : List (List Char)) i p, parts.flatMap segmentsOf ≠ .index i :: p := by
    intro parts i p heq
    cases parts with
    | nil => cases heq
    | cons part parts =>
      obtain ⟨name, is, hpart, -⟩ := exists_segmentsOf_eq part
      rw [List.flatMap_cons, hpart] at heq
      cases heq
  induction is generalizing js with
  | nil =>
    cases js with
    | nil => exact ⟨rfl, h⟩
    | cons j js => exact absurd h (hstop parts j _)
  | cons i is ih =>
    cases js with
    | nil => exact absurd h.symm (hstop parts' i _)
    | cons j js =>
      obtain ⟨hij, hrest⟩ := List.cons.inj h
      obtain ⟨rfl, hparts⟩ := ih hrest
      exact ⟨congrArg (· :: is) (Segment.index.inj hij), hparts⟩

/-- The steps of several parts tell the steps of each. -/
theorem map_segmentsOf_eq {parts parts' : List (List Char)}
    (h : parts.flatMap segmentsOf = parts'.flatMap segmentsOf) :
    parts.map segmentsOf = parts'.map segmentsOf := by
  induction parts generalizing parts' with
  | nil =>
    cases parts' with
    | nil => rfl
    | cons part parts =>
      obtain ⟨name, is, hpart, -⟩ := exists_segmentsOf_eq part
      rw [List.flatMap_cons, hpart] at h
      cases h
  | cons part parts ih =>
    obtain ⟨name, is, hpart, -⟩ := exists_segmentsOf_eq part
    cases parts' with
    | nil =>
      rw [List.flatMap_cons, hpart] at h
      cases h
    | cons part' parts' =>
      obtain ⟨name', js, hpart', -⟩ := exists_segmentsOf_eq part'
      rw [List.flatMap_cons, List.flatMap_cons, hpart, hpart'] at h
      obtain ⟨hname, hrest⟩ := List.cons.inj h
      obtain ⟨rfl, hparts⟩ := indices_append_inj hrest
      rw [List.map_cons, List.map_cons, hpart, hpart', hname, ih hparts]

/-- **Which keys have the same path.** -/
theorem pathOf_eq_iff {key key' : String} : pathOf key = pathOf key' ↔
    List.Forall₂ SameSteps (partsOf key.toList) (partsOf key'.toList) := by
  have hmaps : (partsOf key.toList).map segmentsOf = (partsOf key'.toList).map segmentsOf ↔
      List.Forall₂ SameSteps (partsOf key.toList) (partsOf key'.toList) := by
    rw [← List.forall₂_eq_eq_eq, List.forall₂_map_left_iff, List.forall₂_map_right_iff]
    simp only [segmentsOf_eq_iff]
  rw [← hmaps]
  constructor
  · exact map_segmentsOf_eq
  · intro h
    rw [pathOf, pathOf, List.flatMap_def, List.flatMap_def, h]

/-- No index in a key is spelled with more than its digits. -/
def PlainKey (key : String) : Prop := ∀ part ∈ partsOf key.toList, ¬ Padded part

theorem plainKey_iff {key : String} :
    PlainKey key ↔ ∀ part ∈ partsOf key.toList, printed (segmentsOf part) = part :=
  forall₂_congr fun part _ => (printed_segmentsOf_iff part).symm

instance (key : String) : Decidable (PlainKey key) := decidable_of_iff' _ plainKey_iff

/-- A key without padded indices is determined by its path. -/
theorem PlainKey.eq_of_pathOf_eq {key key' : String} (h : PlainKey key) (h' : PlainKey key')
    (hpath : pathOf key = pathOf key') : key = key' := by
  have hprinted : ∀ {key : String}, PlainKey key →
      ((partsOf key.toList).map segmentsOf).map printed = partsOf key.toList := by
    intro key h
    rw [List.map_map]
    exact (List.map_congr_left (plainKey_iff.mp h)).trans (List.map_id _)
  have hparts : partsOf key.toList = partsOf key'.toList := by
    rw [← hprinted h, ← hprinted h', map_segmentsOf_eq hpath]
  refine String.toList_injective ?_
  rw [← intercalate_partsOf key.toList, hparts, intercalate_partsOf]

/-- **A path determines its key up to the spelling of indices.** A part of a key is printed again
as it was unless an index in it is padded. Keys have the same path if and only if their parts
differ at most in the spelling of indices, and without padded indices only if they are the same.
Where no key under a qualifier has a padded index, a text in the tree is that of the only property
at its path. -/
theorem path_determines_key (part : List Char) (key key' : String) (s : Snapshot)
    (qualifier : String) :
    (printed (segmentsOf part) = part ↔ ¬ Padded part) ∧
      (pathOf key = pathOf key' ↔
        List.Forall₂ SameSteps (partsOf key.toList) (partsOf key'.toList)) ∧
      (PlainKey key → PlainKey key' → pathOf key = pathOf key' → key = key') ∧
      ((∀ k v, s.Holds qualifier k v → PlainKey k) →
        ∀ p v, (Tree.ofSnapshot s qualifier).at? p = some (.text v) →
          ∃ k, s.Holds qualifier k v ∧ pathOf k = p ∧
            ∀ k' v', s.Holds qualifier k' v' → pathOf k' = p → k' = k) := by
  refine ⟨printed_segmentsOf_iff part, pathOf_eq_iff, fun h h' => h.eq_of_pathOf_eq h', ?_⟩
  intro hplain p v hv
  rw [Tree.ofSnapshot_eq] at hv
  obtain ⟨k, hk, rfl, -⟩ := Tree.at?_bound_last hv
  exact ⟨k, hk, rfl, fun k' v' hk' hpath =>
    (hplain k' v' hk').eq_of_pathOf_eq (hplain k v hk) hpath⟩

/-- Indices with digits only, a bracket without an index, and an index that is too large. -/
def listed : Snapshot :=
  ⟨.ofList [("a[10]", "1"), ("a[2].b[0][1]", "2"), ("a[x]", "3"), ("c[1024]", "4")], ∅⟩

theorem path_determines_key_listed : ∃ k, listed.Holds "" k "2" ∧
    pathOf k = [.field "a", .index 2, .field "b", .index 0, .index 1] ∧
      ∀ k' v', listed.Holds "" k' v' →
        pathOf k' = [.field "a", .index 2, .field "b", .index 0, .index 1] → k' = k := by
  refine (path_determines_key [] "" "" listed "").2.2.2 ?_ _ "2" rfl
  intro k v h
  have hkey : k ∈ ["a[10]", "a[2].b[0][1]", "a[x]", "c[1024]"] :=
    List.mem_map_of_mem (f := Prod.fst) (Snapshot.mem_bound_iff.mpr h)
  have hplain : ∀ key ∈ ["a[10]", "a[2].b[0][1]", "a[x]", "c[1024]"], PlainKey key := by decide
  exact hplain k hkey

/-- A plus sign before an index makes another key with the same path, and of the two properties
the tree has one. -/
theorem plus_sign_merges : '.' ∉ "a[+0]".toList ∧
    printed (segmentsOf "a[+0]".toList) ≠ "a[+0]".toList ∧ pathOf "a[+0]" = pathOf "a[0]" ∧
      Tree.ofSnapshot ⟨.ofList [("a[+0]", "1"), ("a[0]", "2")], ∅⟩ "" =
        .record [("a", .list [.text "2"])] :=
  ⟨by decide, by decide, by decide, rfl⟩

end Binding

end LiveConfig
