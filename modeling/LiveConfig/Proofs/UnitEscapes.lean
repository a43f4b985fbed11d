import LiveConfig.Proofs.Requests
import LiveConfig.Proofs.WrittenProperties
import Mathlib.Data.List.Induction

/-!
# Escapes that are well formed

A backslash that is not escaped itself, with a `u` behind it, introduces the digits of a unit. The
reader looks at the digits only as it comes to them, sometimes ahead of the place where it is, and
it leaves the value of an entry without a key alone. Nevertheless a text can be read if and only if
the digits behind every introducer form a number, wherever it stands (`Properties.Formed`).

What forms a number are four hexadecimal digits, and also three of them behind a plus sign: so a
document that can be read need not have four digits behind each introducer.

## Main definitions

* `Properties.Introduces` — an introducer at a place of a text
* `Properties.IsNumber` — characters that form the number of a unit
* `Properties.Formed` — every introducer of a text has a number behind it

## Main results

* `Properties.succeeds_unescape_iff` — which texts can be unescaped
* `Document.succeeds_properties_iff` — which documents can be read
* `Document.plus_sign_passes` — a document that can be read although one digit of four is a sign
-/

namespace LiveConfig

namespace Properties

/-! ### Introducers -/

/-- Between two parts of a text an introducer stands: a backslash that is not escaped, because the
backslashes in front of it are even in number, and a `u`. -/
def Introduces (cs before behind : List Char) : Prop :=
  cs = before ++ '\\' :: 'u' :: behind ∧ continues before = false

/-- A hexadecimal digit. -/
def IsDigit (c : Char) : Prop := '0' ≤ c ∧ c ≤ '9' ∨ 'a' ≤ c ∧ c ≤ 'f' ∨ 'A' ≤ c ∧ c ≤ 'F'

instance : DecidablePred IsDigit := fun _ => inferInstanceAs (Decidable (_ ∨ _ ∨ _))

/-- What is taken for the number of a unit: four digits, or a plus sign and three digits. -/
def IsNumber (cs : List Char) : Prop :=
  cs.length = 4 ∧ ((∀ c ∈ cs, IsDigit c) ∨ ∃ r, cs = '+' :: r ∧ ∀ c ∈ r, IsDigit c)

/-- Every introducer of a text has a number behind it. -/
def Formed (cs : List Char) : Prop :=
  ∀ before behind, Introduces cs before behind → IsNumber (behind.take 4)

/-- A front that does not escape what follows makes no difference to what is escaped. -/
theorem continues_append_eq {front : List Char} (h : continues front = false) (l : List Char) :
    continues (front ++ l) = continues l := by
  induction l using List.reverseRecOn with
  | nil => rw [List.append_nil, h]; rfl
  | append_singleton l c ih =>
    rw [← List.append_assoc, continues_append_singleton, continues_append_singleton, ih]

/-! ### Numbers -/

theorem isSome_hexDigit?_iff {c : Char} : (hexDigit? c).isSome = true ↔ IsDigit c := by
  rw [hexDigit?, IsDigit]
  split
  · next h => simp [h]
  · next h₁ =>
    split
    · next h => simp [h]
    · next h₂ =>
      split
      · next h => simp [h]
      · next h₃ => simp [h₁, h₂, h₃]

theorem isSome_hexFrom_iff {acc : Nat} {cs : List Char} :
    (hexFrom acc cs).isSome = true ↔ ∀ c ∈ cs, IsDigit c := by
  induction cs generalizing acc with
  | nil => simp [hexFrom]
  | cons c cs ih =>
    rw [hexFrom, List.forall_mem_cons, ← isSome_hexDigit?_iff]
    cases hexDigit? c with
    | none => simp
    | some d => simpa using ih

theorem isSome_hexNumber?_iff {cs : List Char} : (hexNumber? cs).isSome = true ↔
    cs ≠ [] ∧ ((∀ c ∈ cs, IsDigit c) ∨ ∃ r, cs = '+' :: r ∧ r ≠ [] ∧ ∀ c ∈ r, IsDigit c) := by
  have hplus : ¬ IsDigit '+' := by decide
  cases cs with
  | nil => simp [hexNumber?]
  | cons c r =>
    by_cases hc : c = '+'
    · subst hc
      cases r with
      | nil => simp [hexNumber?, hplus]
      | cons d r =>
        rw [hexNumber?, isSome_hexFrom_iff]
        · simp [hplus]
        · exact List.cons_ne_nil d r
    · have hsign : hexNumber? (c :: r) = hexFrom 0 (c :: r) := by
        rw [hexNumber?]
        · exact List.cons_ne_nil c r
        · exact fun h => hc (List.cons.inj h).1
        · exact fun _ h => hc (List.cons.inj h).1
      rw [hsign, isSome_hexFrom_iff]
      simp [hc]

/-- A digit or a sign is a byte. -/
theorem byteLength_eq {cs : List Char} (h : ∀ c ∈ cs, IsDigit c ∨ c = '+') :
    byteLength cs = cs.length := by
  induction cs with
  | nil => rfl
  | cons c cs ih =>
    obtain ⟨hc, hcs⟩ := List.forall_mem_cons.mp h
    have hsmall : c ≤ 'f' := by
      rcases hc with (⟨-, hc⟩ | ⟨-, hc⟩ | ⟨-, hc⟩) | rfl
      · exact Char.le_trans hc (by decide)
      · exact hc
      · exact Char.le_trans hc (by decide)
      · decide
    have hone : c.utf8Size = 1 := by
      rw [Char.utf8Size, if_pos (UInt32.le_trans hsmall (by decide))]
    have hcons : byteLength (c :: cs) = c.utf8Size + byteLength cs := rfl
    rw [hcons, hone, ih hcs, List.length_cons, Nat.add_comm]

/-- **Which characters form a number.** -/
theorem isOk_unitOf_iff {cs : List Char} : (unitOf cs).isOk = true ↔ IsNumber cs := by
  have hunit : (unitOf cs).isOk = true ↔ byteLength cs = 4 ∧ (hexNumber? cs).isSome = true := by
    rw [unitOf]
    by_cases hlength : byteLength cs = 4
    · rw [if_neg (fun h => h hlength)]
      cases hexNumber? cs <;> simp [hlength, Except.isOk, Except.toBool]
    · simp [hlength, Except.isOk, Except.toBool]
  rw [hunit, isSome_hexNumber?_iff, IsNumber]
  constructor
  · rintro ⟨hlength, -, hdigits | ⟨r, rfl, -, hdigits⟩⟩
    · exact ⟨(byteLength_eq fun c hc => Or.inl (hdigits c hc)).symm.trans hlength, Or.inl hdigits⟩
    · refine ⟨(byteLength_eq ?_).symm.trans hlength, Or.inr ⟨r, rfl, hdigits⟩⟩
      exact List.forall_mem_cons.mpr ⟨Or.inr rfl, fun c hc => Or.inl (hdigits c hc)⟩
  · rintro ⟨hlength, hdigits⟩
    have hne : cs ≠ [] := by
      rintro rfl
      cases hlength
    rcases hdigits with hdigits | ⟨r, rfl, hdigits⟩
    · exact ⟨(byteLength_eq fun c hc => Or.inl (hdigits c hc)).trans hlength, hne, Or.inl hdigits⟩
    · refine ⟨(byteLength_eq ?_).trans hlength, hne, Or.inr ⟨r, rfl, ?_, hdigits⟩⟩
      · exact List.forall_mem_cons.mpr ⟨Or.inr rfl, fun c hc => Or.inl (hdigits c hc)⟩
      · rintro rfl
        cases hlength

/-- A number has no backslash in it. -/
theorem IsNumber.ne_backslash {cs : List Char} (h : IsNumber cs) : ∀ c ∈ cs, c ≠ '\\' := by
  have hdigit : ¬ IsDigit '\\' := by decide
  rcases h.2 with hdigits | ⟨r, rfl, hdigits⟩
  · rintro c hc rfl
    exact hdigit (hdigits _ hc)
  · rintro c hc rfl
    rcases List.mem_cons.mp hc with hc | hc
    · exact absurd hc (by decide)
    · exact hdigit (hdigits _ hc)

/-! ### Texts whose introducers all have a number behind them -/

theorem formed_nil : Formed [] := by
  rintro before behind ⟨heq, -⟩
  simp at heq

theorem formed_backslash : Formed ['\\'] := by
  rintro before behind ⟨heq, -⟩
  have hlength := congrArg List.length heq
  simp at hlength
  omega

/-- What stands for itself introduces nothing. -/
theorem formed_cons_iff {c : Char} (hc : c ≠ '\\') {cs : List Char} :
    Formed (c :: cs) ↔ Formed cs := by
  have hfront : continues [c] = false := by simp [continues, hc]
  constructor
  · rintro h before behind ⟨rfl, heven⟩
    exact h (c :: before) behind ⟨rfl, (continues_append_eq hfront before).trans heven⟩
  · rintro h before behind ⟨heq, heven⟩
    cases before with
    | nil => exact absurd (List.cons.inj heq).1 hc
    | cons d before =>
      obtain ⟨rfl, rfl⟩ := List.cons.inj heq
      exact h before behind ⟨rfl, (continues_append_eq hfront before).symm.trans heven⟩

theorem formed_append_iff {front : List Char} (hfront : ∀ c ∈ front, c ≠ '\\') {cs : List Char} :
    Formed (front ++ cs) ↔ Formed cs := by
  induction front with
  | nil => rfl
  | cons c front ih =>
    obtain ⟨hc, hfront⟩ := List.forall_mem_cons.mp hfront
    rw [List.cons_append, formed_cons_iff hc, ih hfront]

/-- A backslash that is not escaped introduces a number if a `u` is behind it. -/
theorem formed_escaped_iff {c : Char} {cs : List Char} :
    Formed ('\\' :: c :: cs) ↔ (c = 'u' → IsNumber (cs.take 4)) ∧ Formed cs := by
  have hfront : continues ['\\', c] = false := by
    have hpair : ['\\', c] = ['\\'] ++ [c] := rfl
    rw [hpair, continues_append_singleton]
    exact Bool.and_false _
  constructor
  · intro h
    refine ⟨?_, ?_⟩
    · rintro rfl
      exact h [] cs ⟨rfl, rfl⟩
    · rintro before behind ⟨rfl, heven⟩
      exact h ('\\' :: c :: before) behind
        ⟨rfl, (continues_append_eq hfront before).trans heven⟩
  · rintro ⟨hnumber, h⟩ before behind ⟨heq, heven⟩
    cases before with
    | nil =>
      obtain ⟨-, heq⟩ := List.cons.inj heq
      obtain ⟨rfl, rfl⟩ := List.cons.inj heq
      exact hnumber rfl
    | cons d before =>
      obtain ⟨rfl, hrest⟩ := List.cons.inj heq
      cases before with
      | nil => cases heven
      | cons d before =>
        obtain ⟨rfl, rfl⟩ := List.cons.inj hrest
        exact h before behind ⟨rfl, (continues_append_eq hfront before).symm.trans heven⟩

/-- Behind an introducer a number has to stand, and then the text goes on. -/
theorem formed_unit_iff {cs : List Char} :
    Formed ('\\' :: 'u' :: cs) ↔ IsNumber (cs.take 4) ∧ Formed (cs.drop 4) := by
  rw [formed_escaped_iff]
  constructor
  · rintro ⟨hnumber, h⟩
    rw [← List.take_append_drop 4 cs, formed_append_iff (hnumber rfl).ne_backslash] at h
    exact ⟨hnumber rfl, h⟩
  · rintro ⟨hnumber, h⟩
    refine ⟨fun _ => hnumber, ?_⟩
    rw [← List.take_append_drop 4 cs, formed_append_iff hnumber.ne_backslash]
    exact h

/-! ### What can be unescaped -/

theorem not_isOk_error {ε α : Type} (f : ε) : ¬ (Except.error f : Except ε α).isOk = true :=
  Bool.false_ne_true

theorem isOk_map {ε α β : Type} (f : α → β) (x : Except ε α) : (x.map f).isOk = x.isOk := by
  cases x <;> rfl

/-- The reader goes from one introducer to the next. If the unit that it found is the first of a
pair then it looks ahead at the number of the next one, which it comes back to unless that is the
second of the pair. -/
theorem isOk_unescapeFrom_unit {fuel : Nat} {r : List Char}
    (ih : ∀ cs : List Char, cs.length ≤ fuel → ((unescapeFrom fuel cs).isOk = true ↔ Formed cs))
    (hfuel : r.length ≤ fuel) : (unescapeFrom (fuel + 1) ('\\' :: 'u' :: r)).isOk = true ↔
      IsNumber (r.take 4) ∧ Formed (r.drop 4) := by
  have hrest : ∀ {s : List Char}, s.length ≤ r.length → ∀ c : Char,
      ((do return c :: (← unescapeFrom fuel s) : Except Fault (List Char)).isOk = true ↔
        Formed s) := by
    intro s hs c
    rw [← ih s (Nat.le_trans hs hfuel)]
    cases unescapeFrom fuel s <;> rfl
  have hdrop : (r.drop 4).length ≤ r.length := by
    rw [List.length_drop]
    exact Nat.sub_le _ _
  rw [unescapeFrom, ← isOk_unitOf_iff]
  cases unitOf (r.take 4) with
  | error f => exact iff_of_false (not_isOk_error f) fun h => not_isOk_error f h.1
  | ok u =>
    refine Iff.trans ?_ (and_iff_right rfl).symm
    simp only [bind, Except.bind] at hrest ⊢
    split
    · next s hhigh hs =>
      have hlength : (s.drop 4).length ≤ r.length := by
        have hs' := congrArg List.length hs
        simp only [List.length_drop, List.length_cons] at hs' ⊢
        omega
      have hnext : Formed (r.drop 4) ↔ (unitOf (s.take 4)).isOk = true ∧ Formed (s.drop 4) := by
        rw [hs, formed_unit_iff, isOk_unitOf_iff]
      cases hv : unitOf (s.take 4) with
      | error f =>
        rw [hnext, hv]
        exact iff_of_false (not_isOk_error f) fun h => not_isOk_error f h.1
      | ok v =>
        simp only
        split
        · rw [hnext, hv]
          exact (hrest hlength _).trans (and_iff_right rfl).symm
        · exact hrest hdrop _
    · exact hrest hdrop _

/-- **A text can be unescaped if and only if** every introducer has a number behind it. -/
theorem isOk_unescape_iff {cs : List Char} : (unescape cs).isOk = true ↔ Formed cs := by
  have hsteps : ∀ (fuel : Nat) (cs : List Char), cs.length ≤ fuel →
      ((unescapeFrom fuel cs).isOk = true ↔ Formed cs) := by
    intro fuel
    induction fuel with
    | zero =>
      intro cs hcs
      obtain rfl := List.eq_nil_of_length_eq_zero (Nat.le_zero.mp hcs)
      exact ⟨fun _ => formed_nil, fun _ => rfl⟩
    | succ fuel ih =>
      intro cs hcs
      cases cs with
      | nil => exact ⟨fun _ => formed_nil, fun _ => rfl⟩
      | cons c r =>
        have hr : r.length ≤ fuel := Nat.le_of_succ_le_succ hcs
        by_cases hc : c = '\\'
        · subst hc
          cases r with
          | nil => exact ⟨fun _ => formed_backslash, fun _ => rfl⟩
          | cons d r =>
            have hr' : r.length ≤ fuel := Nat.le_of_succ_le hr
            by_cases hd : d = 'u'
            · subst hd
              rw [isOk_unescapeFrom_unit ih hr', formed_unit_iff]
            · rw [unescapeFrom_escaped hd, isOk_map, ih r hr', formed_escaped_iff]
              exact (and_iff_right fun h => absurd h hd).symm
        · rw [unescapeFrom_plain hc, isOk_map, ih r hr, formed_cons_iff hc]
  exact hsteps cs.length cs (Nat.le_refl _)

/-! ### What can be read -/

/-- Only a backslash that escapes nothing stands for nothing. -/
theorem eq_of_unescape_eq_nil {cs : List Char} (h : unescape cs = .ok []) :
    cs = [] ∨ cs = ['\\'] := by
  have hcons : ∀ {c : Char} {x : Except Fault (List Char)},
      (do return c :: (← x) : Except Fault (List Char)) ≠ .ok [] := by
    intro c x hx
    obtain ⟨t, -, ht⟩ := bind_eq_ok.mp hx
    cases ht
  have hmap : ∀ {c : Char} {x : Except Fault (List Char)}, x.map (c :: ·) ≠ .ok [] := by
    intro c x
    cases x <;> exact nofun
  rw [unescape] at h
  cases cs with
  | nil => exact Or.inl rfl
  | cons c r =>
    rw [List.length_cons] at h
    by_cases hc : c = '\\'
    · subst hc
      cases r with
      | nil => exact Or.inr rfl
      | cons d r =>
        by_cases hd : d = 'u'
        · subst hd
          rw [unescapeFrom] at h
          obtain ⟨u, -, h⟩ := bind_eq_ok.mp h
          dsimp only at h
          split at h
          · obtain ⟨v, -, h⟩ := bind_eq_ok.mp h
            split at h
            · exact absurd h hcons
            · exact absurd h hcons
          · exact absurd h hcons
        · rw [unescapeFrom_escaped hd] at h
          exact absurd h hmap
    · rw [unescapeFrom_plain hc] at h
      exact absurd h hmap

/-- A key that is nothing but a backslash has no value behind it. -/
theorem splitKey_eq_backslash {entry : List Char} (h : (splitKey entry).1 = ['\\']) :
    (splitKey entry).2 = [] := by
  cases entry with
  | nil => rfl
  | cons c r =>
    by_cases hc : c = '\\'
    · subst hc
      cases r with
      | nil => rfl
      | cons d r => cases h
    · cases hsep : isSeparator c with
      | false =>
        rw [splitKey_plain hc hsep] at h
        exact absurd (List.cons.inj h).1 hc
      | true =>
        rw [splitKey] at h
        · rw [if_pos hsep] at h
          cases h
        · exact fun h _ => hc h
        · exact fun _ _ h _ => hc h

/-- **Which entries can be read.** Without a key the value does not matter. -/
theorem isOk_readEntry_iff {entry : List Char} : (readEntry entry).isOk = true ↔
    Formed (splitEntry entry).1 ∧ ((splitEntry entry).1 ≠ [] → Formed (splitEntry entry).2) := by
  have hvalue : (splitEntry entry).1 = ['\\'] → (splitEntry entry).2 = [] := by
    intro h
    have hrest : (splitKey entry).2 = [] := splitKey_eq_backslash h
    change skipSeparator (splitKey entry).2 = []
    rw [hrest]
    rfl
  rw [readEntry, ← isOk_unescape_iff]
  cases hkey : unescape (splitEntry entry).1 with
  | error f =>
    simp only [hkey, bind, Except.bind]
    exact iff_of_false (not_isOk_error f) fun h => not_isOk_error f h.1
  | ok key =>
    refine Iff.trans ?_ (and_iff_right rfl).symm
    simp only [hkey, bind, Except.bind]
    cases key with
    | nil =>
      refine ⟨fun _ hne => ?_, fun _ => rfl⟩
      have hslash := (eq_of_unescape_eq_nil hkey).resolve_left hne
      rw [hvalue hslash]
      exact formed_nil
    | cons c key =>
      have hne : (splitEntry entry).1 ≠ [] := by
        intro h
        rw [h] at hkey
        cases hkey
      rw [← isOk_unescape_iff, forall_prop_of_true hne]
      cases unescape (splitEntry entry).2 <;> exact Iff.rfl

theorem isOk_readEntries_iff {entries : List (List Char)} :
    (readEntries entries).isOk = true ↔ ∀ e ∈ entries, (readEntry e).isOk = true := by
  induction entries with
  | nil => exact iff_of_true rfl (List.forall_mem_nil _)
  | cons e entries ih =>
    rw [readEntries, List.forall_mem_cons, ← ih]
    cases readEntry e with
    | error f => exact iff_of_false (not_isOk_error f) fun h => not_isOk_error f h.1
    | ok p =>
      refine Iff.trans ?_ (and_iff_right rfl).symm
      cases readEntries entries <;> exact Iff.rfl

end Properties

namespace Document

open Properties

/-- **A document can be read if and only if** every introducer in it has a number behind it: in the
key of each entry, and in its value unless the key is empty. -/
theorem succeeds_properties_iff (text : String) :
    (∃ m, expand .properties text = .ok m) ↔
      ∀ entry ∈ joinLines none (lines text.toList), Formed (splitEntry entry).1 ∧
        ((splitEntry entry).1 ≠ [] → Formed (splitEntry entry).2) := by
  have hok : (∃ m, expand .properties text = .ok m) ↔
      (readEntries (joinLines none (lines text.toList))).isOk = true := by
    rw [expand, Properties.read]
    cases readEntries (joinLines none (lines text.toList)) with
    | error f =>
      refine iff_of_false ?_ (not_isOk_error f)
      rintro ⟨m, hm⟩
      cases hm
    | ok ps => exact iff_of_true ⟨_, rfl⟩ rfl
  rw [hok, isOk_readEntries_iff]
  exact forall₂_congr fun e _ => isOk_readEntry_iff

/-- A sign passes for the first of four digits. -/
theorem plus_sign_passes : ¬ ∀ text m, expand .properties text = .ok m →
    ∀ entry ∈ joinLines none (lines text.toList),
      ∀ part ∈ [(splitEntry entry).1, (splitEntry entry).2],
        ∀ before behind, Introduces part before behind →
          (behind.take 4).length = 4 ∧ ∀ c ∈ behind.take 4, IsDigit c := by
  intro h
  have hread : expand .properties "k=\\u+041" = .ok (.ofList [("k", "A")]) :=
    eq_ok_of_toOption (by decide +kernel)
  have hdigits := (h "k=\\u+041" _ hread "k=\\u+041".toList (by decide) "\\u+041".toList
    (by decide) [] "+041".toList ⟨by decide, by decide⟩).2
  exact absurd hdigits (by decide)

end Document

end LiveConfig
