import LiveConfig.Proofs.CharacterForms
import LiveConfig.Proofs.UnitEscapes
import LiveConfig.Proofs.Utf8

/-!
# Escapes as code units

What a text with escapes stands for can be found in two goes: first every escape is replaced by the
UTF-16 units that it stands for, and everything else by its own units; then the units are decoded,
with a replacement character for every unit of a pair whose partner is missing. The reader does it
in one go, and pairs units up as it comes to them by looking ahead. Both come to the same, provided
that four digits stand behind each introducer (`Properties.Hexadecimal`).

Decoding is not written as a function here. A text is the decoding of units (`Utf16.Decodes`) if
they are its own units, one character after the other, but for lone halves of pairs in places where
it has replacement characters; there is one such text only (`Utf16.Decodes.unique`).

## Main definitions

* `Utf16.ofChar` — the units of a character
* `Utf16.Decodes` — a text that is a decoding of units
* `Properties.Hexadecimal` — behind each introducer of a text four digits stand
* `Properties.units` — the units of a text with escapes

## Main results

* `Properties.Amounts.decodes` — the reader finds the decoding of the units
* `Properties.unescape_decodes` — the same for whole texts, with the first half of a pair whose
  second half is missing
-/

namespace LiveConfig

open Properties

namespace Utf16

/-! ### Units and their decoding -/

/-- The units of a character: itself, or a pair. -/
def ofChar (c : Char) : List Nat := if c.toNat < 0x10000 then [c.toNat] else [highUnit c, lowUnit c]

/-- A text is a decoding of units. -/
inductive Decodes : List Nat → List Char → Prop
  | nil : Decodes [] []
  /-- Units of a character stand for it. -/
  | char (c : Char) {us : List Nat} {t : List Char} (h : Decodes us t) :
      Decodes (ofChar c ++ us) (c :: t)
  /-- Half of a pair without the other half stands for the replacement character. -/
  | lone {u : Nat} {us : List Nat} {t : List Char} (hu : isHigh u = true ∨ isLow u = true)
      (hlone : isHigh u = true → ∀ v vs, us = v :: vs → isLow v = false) (h : Decodes us t) :
      Decodes (u :: us) ('\uFFFD' :: t)

/-- One unit is no half of a pair, and two of them are the halves of one. -/
theorem ofChar_cases (c : Char) :
    (ofChar c = [c.toNat] ∧ isHigh c.toNat = false ∧ isLow c.toNat = false) ∨
      (ofChar c = [highUnit c, lowUnit c] ∧ isHigh (highUnit c) = true ∧
        isLow (lowUnit c) = true ∧ ofPair (highUnit c) (lowUnit c) = c) := by
  rcases Nat.lt_or_ge c.toNat 0x10000 with h | h
  · refine Or.inl ⟨if_pos h, (Writes.ofUnit_toNat h).1, ?_⟩
    rw [Bool.eq_false_iff, ne_eq, Writes.isLow_iff]
    rcases c.valid with hvalid | hvalid
    · have hlow : c.toNat < 0xD800 := hvalid
      omega
    · have hhigh : 0xDFFF < c.toNat := hvalid.1
      omega
  · obtain ⟨hhigh, hlow, -, -, hpair⟩ := Writes.ofPair_units h
    exact Or.inr ⟨if_neg (Nat.not_lt.mpr h), hhigh, hlow, hpair⟩

theorem ofChar_ne_nil (c : Char) : ofChar c ≠ [] := by
  rcases ofChar_cases c with ⟨h, -⟩ | ⟨h, -⟩ <;> rw [h] <;> exact List.cons_ne_nil _ _

/-- The units of different characters differ, whatever stands behind them. -/
theorem ofChar_append_inj {c d : Char} {us vs : List Nat}
    (h : ofChar c ++ us = ofChar d ++ vs) : c = d ∧ us = vs := by
  rcases ofChar_cases c with ⟨hc, hhigh, -⟩ | ⟨hc, hhigh, -, hpair⟩ <;>
    rcases ofChar_cases d with ⟨hd, hhigh', -⟩ | ⟨hd, hhigh', -, hpair'⟩ <;>
      rw [hc, hd] at h <;> obtain ⟨hfirst, hrest⟩ := List.cons.inj h
  · exact ⟨Char.toNat_inj.mp hfirst, hrest⟩
  · rw [hfirst, hhigh'] at hhigh
    cases hhigh
  · rw [hfirst, hhigh'] at hhigh
    cases hhigh
  · obtain ⟨hsecond, hrest⟩ := List.cons.inj hrest
    rw [← hpair, ← hpair', hfirst, hsecond]
    exact ⟨rfl, hrest⟩

/-- Half of a pair without the other half does not belong to a character. -/
theorem ofChar_append_ne_lone {u : Nat} {us : List Nat} (hu : isHigh u = true ∨ isLow u = true)
    (hlone : isHigh u = true → ∀ v vs, us = v :: vs → isLow v = false) {c : Char} {vs : List Nat} :
    ofChar c ++ vs ≠ u :: us := by
  intro h
  rcases ofChar_cases c with ⟨hc, hhigh, hlow⟩ | ⟨hc, hhigh, hlow, -⟩ <;> rw [hc] at h <;>
    obtain ⟨rfl, hrest⟩ := List.cons.inj h
  · rcases hu with hu | hu
    · rw [hhigh] at hu
      cases hu
    · rw [hlow] at hu
      cases hu
  · rw [hlone hhigh _ _ hrest.symm] at hlow
    cases hlow

/-- A unit that is no half of a pair is that of its character. -/
theorem ofChar_ofUnit {u : Nat} (hu : u < 0x10000) (hhigh : isHigh u = false)
    (hlow : isLow u = false) : ofChar (ofUnit u) = [u] := by
  have hvalid : u.isValidChar := by
    rw [Bool.eq_false_iff, ne_eq, Writes.isHigh_iff] at hhigh
    rw [Bool.eq_false_iff, ne_eq, Writes.isLow_iff] at hlow
    rw [Nat.isValidChar]
    omega
  have hself : (ofUnit u).toNat = u := by
    simp only [ofUnit, hhigh, hlow, Bool.or_self, Bool.false_eq_true, if_false]
    exact Text.Utf8.toNat_charOfNat hvalid
  rw [ofChar, hself, if_pos hu]

/-- The halves of a pair are the units of its character. -/
theorem ofChar_ofPair {u v : Nat} (hu : isHigh u = true) (hv : isLow v = true) :
    ofChar (ofPair u v) = [u, v] := by
  rw [Writes.isHigh_iff] at hu
  rw [Writes.isLow_iff] at hv
  have hself : (ofPair u v).toNat = 0x10000 + (u - 0xD800) * 0x400 + (v - 0xDC00) := by
    refine Text.Utf8.toNat_charOfNat (Or.inr ⟨?_, ?_⟩) <;> omega
  have hfirst : highUnit (ofPair u v) = u := by
    rw [highUnit, hself]
    omega
  have hsecond : lowUnit (ofPair u v) = v := by
    rw [lowUnit, hself]
    omega
  rw [ofChar, hself, if_neg (by omega), hfirst, hsecond]

namespace Decodes

variable {us vs : List Nat} {t t' : List Char}

/-- **Units have one decoding.** -/
theorem unique (h : Decodes us t) (h' : Decodes us t') : t = t' := by
  induction h generalizing t' with
  | nil =>
    generalize hus : ([] : List Nat) = us at h'
    cases h' with
    | nil => rfl
    | char c h => exact absurd (List.append_eq_nil_iff.mp hus.symm).1 (ofChar_ne_nil c)
    | lone hu hlone h => cases hus
  | @char c us t h ih =>
    generalize hus : ofChar c ++ us = ws at h'
    cases h' with
    | nil => exact absurd (List.append_eq_nil_iff.mp hus).1 (ofChar_ne_nil c)
    | char d h' =>
      obtain ⟨rfl, rfl⟩ := ofChar_append_inj hus
      rw [ih h']
    | lone hu hlone h' => exact absurd hus (ofChar_append_ne_lone hu hlone)
  | @lone u us t hu hlone h ih =>
    generalize hus : u :: us = ws at h'
    cases h' with
    | nil => cases hus
    | char d h' => exact absurd hus.symm (ofChar_append_ne_lone hu hlone)
    | lone hu' hlone' h' =>
      obtain ⟨rfl, rfl⟩ := List.cons.inj hus
      rw [ih h']

/-- A unit whose other half does not follow, if it is the first half of a pair. -/
theorem single {u : Nat} (hu : u < 0x10000)
    (hlone : isHigh u = true → ∀ v vs, us = v :: vs → isLow v = false) (h : Decodes us t) :
    Decodes (u :: us) (ofUnit u :: t) := by
  by_cases hhalf : isHigh u = true ∨ isLow u = true
  · have hreplaced : ofUnit u = '\uFFFD' := if_pos (Bool.or_eq_true_iff.mpr hhalf)
    rw [hreplaced]
    exact .lone hhalf hlone h
  · obtain ⟨hhigh, hlow⟩ := not_or.mp hhalf
    have hchar := Decodes.char (ofUnit u) h
    rwa [ofChar_ofUnit hu (Bool.eq_false_iff.mpr hhigh) (Bool.eq_false_iff.mpr hlow)] at hchar

theorem pair {u v : Nat} (hu : isHigh u = true) (hv : isLow v = true) (h : Decodes us t) :
    Decodes (u :: v :: us) (ofPair u v :: t) := by
  have hchar := Decodes.char (ofPair u v) h
  rwa [ofChar_ofPair hu hv] at hchar

/-- Units that do not begin with the second half of a pair are decoded by themselves. -/
theorem append (h : Decodes us t) (h' : Decodes vs t')
    (hvs : ∀ v ws, vs = v :: ws → isLow v = false) : Decodes (us ++ vs) (t ++ t') := by
  induction h with
  | nil => exact h'
  | char c h ih =>
    rw [List.append_assoc]
    exact .char c ih
  | @lone u us t hu hlone h ih =>
    refine .lone hu (fun hhigh v ws heq => ?_) ih
    cases us with
    | nil => exact hvs v ws heq
    | cons w us =>
      obtain ⟨rfl, -⟩ := List.cons.inj heq
      exact hlone hhigh w us rfl

/-- The first half of a pair between other units, without the second half. -/
theorem append_lone {u : Nat} (h : Decodes us t) (hu : isHigh u = true)
    (hlone : ∀ v ws, vs = v :: ws → isLow v = false) (h' : Decodes vs t') :
    Decodes (us ++ u :: vs) (t ++ '\uFFFD' :: t') := by
  refine h.append (.lone (Or.inl hu) (fun _ => hlone) h') fun v ws heq => ?_
  obtain ⟨rfl, -⟩ := List.cons.inj heq
  rw [Writes.isHigh_iff] at hu
  rw [Bool.eq_false_iff, ne_eq, Writes.isLow_iff]
  omega

end Decodes

end Utf16

namespace Properties

/-! ### Digits -/

/-- The value of a hexadecimal digit. -/
def digit (c : Char) : Nat :=
  if c ≤ '9' then c.toNat - 48 else if c ≤ 'F' then c.toNat - 55 else c.toNat - 87

/-- The number that digits form. -/
def number (ds : List Char) : Nat := ds.foldl (fun n c => 16 * n + digit c) 0

theorem digit_hexDigit : ∀ upper : Bool, ∀ d < 16, digit (hexDigit upper d) = d := by decide

theorem IsDigit.exists_hexDigit {c : Char} (h : IsDigit c) :
    ∃ upper : Bool, ∃ d < 16, hexDigit upper d = c := by
  rcases h with ⟨hl, hu⟩ | ⟨hl, hu⟩ | ⟨hl, hu⟩
  · have hlower : 48 ≤ c.toNat := hl
    have hupper : c.toNat ≤ 57 := hu
    refine ⟨false, c.toNat - 48, by omega, ?_⟩
    rw [hexDigit, if_pos (by omega), Nat.add_sub_cancel' hlower, Char.ofNat_toNat]
  · have hlower : 97 ≤ c.toNat := hl
    have hupper : c.toNat ≤ 102 := hu
    refine ⟨false, c.toNat - 87, by omega, ?_⟩
    rw [hexDigit, if_neg (by omega), if_neg Bool.false_ne_true, Nat.add_sub_cancel' (by omega),
      Char.ofNat_toNat]
  · have hlower : 65 ≤ c.toNat := hl
    have hupper : c.toNat ≤ 70 := hu
    refine ⟨true, c.toNat - 55, by omega, ?_⟩
    rw [hexDigit, if_neg (by omega), if_pos rfl, Nat.add_sub_cancel' (by omega), Char.ofNat_toNat]

/-- Four digits are those of a unit. -/
theorem exists_unitDigits {ds : List Char} (hlength : ds.length = 4) (h : ∀ c ∈ ds, IsDigit c) :
    ∃ upper u, u < 0x10000 ∧ unitDigits upper u = ds := by
  match ds, hlength with
  | [a, b, c, d], _ => ?_
  simp only [List.forall_mem_cons] at h
  obtain ⟨ha, hb, hc, hd, -⟩ := h
  obtain ⟨ua, da, hda, rfl⟩ := ha.exists_hexDigit
  obtain ⟨ub, db, hdb, rfl⟩ := hb.exists_hexDigit
  obtain ⟨uc, dc, hdc, rfl⟩ := hc.exists_hexDigit
  obtain ⟨ud, dd, hdd, rfl⟩ := hd.exists_hexDigit
  refine ⟨[ua, ub, uc, ud], da * 0x1000 + db * 0x100 + dc * 0x10 + dd, by omega, ?_⟩
  have hplaces : (da * 0x1000 + db * 0x100 + dc * 0x10 + dd) / 0x1000 % 16 = da ∧
      (da * 0x1000 + db * 0x100 + dc * 0x10 + dd) / 0x100 % 16 = db ∧
      (da * 0x1000 + db * 0x100 + dc * 0x10 + dd) / 0x10 % 16 = dc ∧
      (da * 0x1000 + db * 0x100 + dc * 0x10 + dd) % 16 = dd := by omega
  rw [unitDigits, hplaces.1, hplaces.2.1, hplaces.2.2.1, hplaces.2.2.2]
  rfl

theorem number_unitDigits {u : Nat} (hu : u < 0x10000) (upper : List Bool) :
    number (unitDigits upper u) = u := by
  simp only [number, unitDigits, List.foldl_cons, List.foldl_nil]
  rw [digit_hexDigit _ _ (by omega), digit_hexDigit _ _ (by omega), digit_hexDigit _ _ (by omega),
    digit_hexDigit _ _ (by omega)]
  omega

/-! ### The units of a text with escapes -/

/-- Behind every introducer of a text four digits stand. -/
def Hexadecimal (cs : List Char) : Prop :=
  ∀ before behind, Introduces cs before behind →
    (behind.take 4).length = 4 ∧ ∀ c ∈ behind.take 4, IsDigit c

/-- The places of a text can be looked through. -/
theorem hexadecimal_iff {cs : List Char} : Hexadecimal cs ↔
    ∀ n < cs.length, (cs.drop n).take 2 = ['\\', 'u'] → continues (cs.take n) = false →
      ((cs.drop (n + 2)).take 4).length = 4 ∧ ∀ c ∈ (cs.drop (n + 2)).take 4, IsDigit c := by
  constructor
  · intro h n hn hintro heven
    refine h (cs.take n) (cs.drop (n + 2)) ⟨?_, heven⟩
    calc cs = cs.take n ++ cs.drop n := (List.take_append_drop n cs).symm
      _ = cs.take n ++ ((cs.drop n).take 2 ++ (cs.drop n).drop 2) := by
        rw [List.take_append_drop 2]
      _ = cs.take n ++ '\\' :: 'u' :: cs.drop (n + 2) := by rw [hintro, List.drop_drop]; rfl
  · rintro h before behind ⟨rfl, heven⟩
    have hplace := h before.length (by simp) (by simp) (by rwa [List.take_left])
    have hbehind : (before ++ '\\' :: 'u' :: behind).drop (before.length + 2) = behind := by
      rw [← List.drop_drop, List.drop_left]
      rfl
    rwa [hbehind] at hplace

instance : DecidablePred Hexadecimal := fun _ =>
  -- Only the characters of the text are looked at, not all that there are.
  letI (ds : List Char) : Decidable (∀ c ∈ ds, IsDigit c) := List.decidableBAll IsDigit ds
  decidable_of_iff _ hexadecimal_iff.symm

/-- The units of a text with escapes: those of the escapes, and of everything else. -/
def units : List Char → List Nat
  | [] => []
  | ['\\'] => []
  | '\\' :: 'u' :: a :: b :: c :: d :: r => number [a, b, c, d] :: units r
  | '\\' :: 'n' :: r => 0x0A :: units r
  | '\\' :: 't' :: r => 0x09 :: units r
  | '\\' :: 'r' :: r => 0x0D :: units r
  | '\\' :: 'f' :: r => 0x0C :: units r
  | '\\' :: c :: r => Utf16.ofChar c ++ units r
  | c :: r => Utf16.ofChar c ++ units r

theorem units_plain {c : Char} (hc : c ≠ '\\') (r : List Char) :
    units (c :: r) = Utf16.ofChar c ++ units r := by
  simp [units, hc]

theorem units_escaped {x : Char} (hx : x ≠ 'u') (r : List Char) :
    units ('\\' :: x :: r) = Utf16.ofChar (ofLetter x) ++ units r := by
  by_cases hletter : x ∈ ['n', 't', 'r', 'f']
  · simp only [List.mem_cons, List.not_mem_nil, or_false] at hletter
    rcases hletter with rfl | rfl | rfl | rfl <;> rfl
  · simp only [List.mem_cons, List.not_mem_nil, or_false, not_or] at hletter
    simp [units, ofLetter, hx, hletter]

theorem units_unit {u : Nat} (hu : u < 0x10000) (upper : List Bool) (r : List Char) :
    units (unitText upper u ++ r) = u :: units r := by
  have hunits : units (unitText upper u ++ r) = number (unitDigits upper u) :: units r := rfl
  rw [hunits, number_unitDigits hu]

/-- A text in which four digits stand behind each introducer amounts to units. -/
inductive Amounts : List Char → List Nat → Prop
  | nil : Amounts [] []
  /-- A backslash at the end escapes nothing. -/
  | backslash : Amounts ['\\'] []
  | plain {c : Char} {cs : List Char} {us : List Nat} (hc : c ≠ '\\') (h : Amounts cs us) :
      Amounts (c :: cs) (Utf16.ofChar c ++ us)
  | escaped {x : Char} {cs : List Char} {us : List Nat} (hx : x ≠ 'u') (h : Amounts cs us) :
      Amounts ('\\' :: x :: cs) (Utf16.ofChar (ofLetter x) ++ us)
  | unit (upper : List Bool) {u : Nat} {cs : List Char} {us : List Nat} (hu : u < 0x10000)
      (h : Amounts cs us) : Amounts (unitText upper u ++ cs) (u :: us)

theorem continues_singleton {c : Char} (hc : c ≠ '\\') : continues [c] = false := by
  simp [continues, hc]

theorem continues_pair (x : Char) : continues ['\\', x] = false := by
  have hpair : ['\\', x] = ['\\'] ++ [x] := rfl
  rw [hpair, continues_append_singleton]
  exact Bool.and_false _

namespace Hexadecimal

/-- What stands behind a front that escapes nothing of it. -/
theorem behind {front cs : List Char} (h : Hexadecimal (front ++ cs))
    (hfront : continues front = false) : Hexadecimal cs := by
  rintro before behind ⟨rfl, heven⟩
  refine h (front ++ before) behind ⟨(List.append_assoc _ _ _).symm, ?_⟩
  rw [continues_append_eq hfront, heven]

/-- What stands before a backslash: no digit is missing there, because the backslash is none. -/
theorem before {cs r : List Char} (h : Hexadecimal (cs ++ '\\' :: r)) : Hexadecimal cs := by
  rintro before behind ⟨rfl, heven⟩
  obtain ⟨hlength, hdigits⟩ := h before (behind ++ '\\' :: r) ⟨by simp, heven⟩
  have hlong : 4 ≤ behind.length := by
    by_contra hshort
    have hmem : '\\' ∈ (behind ++ '\\' :: r).take 4 := by
      obtain ⟨n, hn⟩ : ∃ n, 4 - behind.length = n + 1 := ⟨3 - behind.length, by omega⟩
      rw [List.take_append, hn, List.take_succ_cons]
      simp
    exact absurd (hdigits _ hmem) (by decide)
  rw [List.take_append_of_le_length hlong] at hlength hdigits
  exact ⟨hlength, hdigits⟩

theorem amounts {cs : List Char} (h : Hexadecimal cs) : Amounts cs (units cs) := by
  induction hn : cs.length using Nat.strongRecOn generalizing cs with
  | ind n ih =>
    subst hn
    match cs with
    | [] => exact .nil
    | c :: r =>
      by_cases hc : c = '\\'
      · subst hc
        match r with
        | [] => exact .backslash
        | x :: r =>
          by_cases hx : x = 'u'
          · subst hx
            obtain ⟨hlength, hdigits⟩ := h [] r ⟨rfl, rfl⟩
            obtain ⟨upper, u, hu, hdigits⟩ := exists_unitDigits hlength hdigits
            have hsplit : '\\' :: 'u' :: r = unitText upper u ++ r.drop 4 := by
              rw [unitText, hdigits, List.cons_append, List.cons_append, List.take_append_drop]
            rw [hsplit] at h ⊢
            have hrest := h.behind (Writes.continues_append_unitText [] upper u)
            rw [units_unit hu]
            refine .unit upper hu (ih _ ?_ hrest rfl)
            simp only [List.length_drop, List.length_cons]
            omega
          · rw [units_escaped hx]
            have hrest : Hexadecimal r := behind h (continues_pair x)
            exact .escaped hx (ih _ (Nat.lt_succ_of_lt (Nat.lt_succ_self _)) hrest rfl)
      · rw [units_plain hc]
        have hrest : Hexadecimal r := behind h (continues_singleton hc)
        exact .plain hc (ih _ (Nat.lt_succ_self _) hrest rfl)

end Hexadecimal

namespace Amounts

variable {cs ds : List Char} {us vs : List Nat}

theorem append (h : Amounts cs us) (hcs : continues cs = false) (h' : Amounts ds vs) :
    Amounts (cs ++ ds) (us ++ vs) := by
  induction h with
  | nil => exact h'
  | backslash => cases hcs
  | @plain c cs us hc h ih =>
    rw [List.append_assoc]
    refine .plain hc (ih ?_)
    rw [← hcs]
    exact (continues_append_eq (continues_singleton hc) cs).symm
  | @escaped x cs us hx h ih =>
    rw [List.append_assoc]
    refine .escaped hx (ih ?_)
    rw [← hcs]
    exact (continues_append_eq (continues_pair x) cs).symm
  | @unit upper u cs us hu h ih =>
    rw [List.append_assoc]
    refine .unit upper hu (ih ?_)
    rw [← hcs]
    exact (continues_append_eq (Writes.continues_append_unitText [] upper u) cs).symm

/-- A text that does not begin with an escaped unit has no introducer there, and its units do not
begin with the second one of a pair. -/
theorem head_cases (h : Amounts cs us) :
    (∃ upper u s vs, u < 0x10000 ∧ cs = unitText upper u ++ s ∧ us = u :: vs ∧ Amounts s vs) ∨
      (∀ r, cs ≠ '\\' :: 'u' :: r) ∧ ∀ v vs, us = v :: vs → isLow v = false := by
  have hchar : ∀ (c : Char) (ws : List Nat) (v : Nat) (vs : List Nat),
      Utf16.ofChar c ++ ws = v :: vs → isLow v = false := by
    intro c ws v vs heq
    rw [Bool.eq_false_iff]
    intro hlow
    refine Utf16.ofChar_append_ne_lone (Or.inr hlow) (fun hhigh => ?_) heq
    rw [Writes.isHigh_iff] at hhigh
    rw [Writes.isLow_iff] at hlow
    omega
  cases h with
  | nil => exact Or.inr ⟨by simp, by simp⟩
  | backslash => exact Or.inr ⟨by simp, by simp⟩
  | plain hc h => exact Or.inr ⟨fun r heq => hc (List.cons.inj heq).1, hchar _ _⟩
  | escaped hx h =>
    exact Or.inr ⟨fun r heq => hx (List.cons.inj (List.cons.inj heq).2).1, hchar _ _⟩
  | unit upper hu h => exact Or.inl ⟨upper, _, _, _, hu, rfl, rfl, h⟩

/-- Where no second one of a pair is escaped, the units do not begin with one. -/
theorem isLow_eq_false (h : Amounts cs us)
    (hlone : ∀ digits rest, cs = '\\' :: 'u' :: (digits ++ rest) → digits.length = 4 →
      isLow (number digits) = false) {v : Nat} {vs : List Nat} (heq : us = v :: vs) :
    isLow v = false := by
  rcases h.head_cases with ⟨upper, u, s, ws, hu, hcs, hus, -⟩ | ⟨-, hnone⟩
  · obtain ⟨rfl, -⟩ := List.cons.inj (heq.symm.trans hus)
    rw [← number_unitDigits hu upper]
    exact hlone _ s hcs rfl
  · exact hnone v vs heq

/-- A unit by itself. If it is the first one of a pair then the reader looks ahead at what follows,
which is not the second one, and comes back. -/
theorem unescapeFrom_single {u : Nat} (hu : u < 0x10000) (h : Amounts cs us)
    (hlone : isHigh u = true → ∀ v vs, us = v :: vs → isLow v = false) (upper : List Bool)
    (fuel : Nat) : unescapeFrom (fuel + 1) (unitText upper u ++ cs) =
      (unescapeFrom fuel cs).map (ofUnit u :: ·) := by
  cases hhigh : isHigh u with
  | false => exact unescapeFrom_unit hu hhigh upper fuel cs
  | true =>
    have htake : (unitDigits upper u ++ cs).take 4 = unitDigits upper u := rfl
    have hdrop : (unitDigits upper u ++ cs).drop 4 = cs := rfl
    have hreplaced : ofUnit u = replacement := by simp [ofUnit, hhigh]
    rw [unitText, List.cons_append, List.cons_append, unescapeFrom, htake, hdrop,
      unitOf_unitDigits hu, hreplaced]
    simp only [bind, Except.bind, hhigh, hreplaced]
    rcases h.head_cases with ⟨upper', v, s, vs, hv, rfl, rfl, -⟩ | ⟨hne, -⟩
    · have htake' : (unitDigits upper' v ++ s).take 4 = unitDigits upper' v := rfl
      rw [unitText, List.cons_append, List.cons_append]
      simp only [htake', unitOf_unitDigits hv, hlone hhigh v vs rfl]
      cases unescapeFrom fuel ('\\' :: 'u' :: (unitDigits upper' v ++ s)) <;> rfl
    · split
      · next s _ => exact absurd rfl (hne s)
      · next s _ _ _ => cases unescapeFrom fuel s <;> rfl

/-- **The reader finds the decoding of the units**, each of its steps the character that is next
in it. -/
theorem decodes_from {fuel : Nat} (h : Amounts cs us) (hfuel : cs.length ≤ fuel) :
    ∃ t, unescapeFrom fuel cs = .ok t ∧ Utf16.Decodes us t := by
  induction fuel generalizing cs us with
  | zero =>
    obtain rfl := List.eq_nil_of_length_eq_zero (Nat.le_zero.mp hfuel)
    cases h
    exact ⟨[], rfl, .nil⟩
  | succ fuel ih =>
    cases h with
    | nil => exact ⟨[], rfl, .nil⟩
    | backslash => exact ⟨[], rfl, .nil⟩
    | @plain c cs us hc h =>
      obtain ⟨t, ht, hdecodes⟩ := ih h (Nat.le_of_succ_le_succ hfuel)
      exact ⟨c :: t, by rw [unescapeFrom_plain hc, ht]; rfl, .char c hdecodes⟩
    | @escaped x cs us hx h =>
      obtain ⟨t, ht, hdecodes⟩ := ih h (Nat.le_of_succ_le (Nat.le_of_succ_le_succ hfuel))
      exact ⟨ofLetter x :: t, by rw [unescapeFrom_escaped hx, ht]; rfl, .char _ hdecodes⟩
    | @unit upper u cs us hu h =>
      simp only [List.length_append, unitText, List.length_cons] at hfuel
      by_cases hpair : isHigh u = true ∧ ∃ v vs, us = v :: vs ∧ isLow v = true
      · obtain ⟨hhigh, v, vs, rfl, hlow⟩ := hpair
        rcases h.head_cases with ⟨upper', v', s, vs', hv, rfl, heq, hs⟩ | ⟨-, hnone⟩
        · obtain ⟨rfl, rfl⟩ := List.cons.inj heq
          rw [List.length_append] at hfuel
          obtain ⟨t, ht, hdecodes⟩ := ih hs (by omega)
          exact ⟨ofPair u v :: t, by rw [unescapeFrom_pair hu hv hhigh hlow, ht]; rfl,
            hdecodes.pair hhigh hlow⟩
        · exact absurd hlow (Bool.eq_false_iff.mp (hnone v vs rfl))
      · have hlone : isHigh u = true → ∀ v vs, us = v :: vs → isLow v = false :=
          fun hhigh v vs heq => Bool.eq_false_iff.mpr fun hlow => hpair ⟨hhigh, v, vs, heq, hlow⟩
        obtain ⟨t, ht, hdecodes⟩ := ih h (by omega)
        exact ⟨ofUnit u :: t, by rw [h.unescapeFrom_single hu hlone, ht]; rfl,
          hdecodes.single hu hlone⟩

theorem decodes (h : Amounts cs us) : ∃ t, unescape cs = .ok t ∧ Utf16.Decodes us t :=
  h.decodes_from (Nat.le_refl _)

end Amounts

/-- **A text is unescaped to the decoding of its units**, if four digits stand behind each of its
introducers. The first one of a pair whose second one does not follow stands for the replacement
character, and what is before it and behind it for the same as it would by itself. -/
theorem unescape_decodes {cs : List Char} (h : Hexadecimal cs) :
    (∃ t, unescape cs = .ok t ∧ ∀ t', Utf16.Decodes (units cs) t' ↔ t' = t) ∧
      ∀ before digits rest, Introduces cs before (digits ++ rest) → digits.length = 4 →
        isHigh (number digits) = true →
        (∀ digits' rest', rest = '\\' :: 'u' :: (digits' ++ rest') → digits'.length = 4 →
          isLow (number digits') = false) →
        ∃ t t', unescape before = .ok t ∧ unescape rest = .ok t' ∧
          unescape cs = .ok (t ++ '\uFFFD' :: t') := by
  constructor
  · obtain ⟨t, ht, hdecodes⟩ := h.amounts.decodes
    exact ⟨t, ht, fun t' => ⟨fun h' => h'.unique hdecodes, fun heq => heq ▸ hdecodes⟩⟩
  · intro before digits rest hintro hlength hhigh hlone
    have hdigits := (h before (digits ++ rest) hintro).2
    rw [← hlength, List.take_left] at hdigits
    obtain ⟨upper, u, hu, rfl⟩ := exists_unitDigits hlength hdigits
    rw [number_unitDigits hu] at hhigh
    obtain ⟨rfl, heven⟩ := hintro
    have hunit : Hexadecimal (unitText upper u ++ rest) := h.behind heven
    have hrest := (hunit.behind (Writes.continues_append_unitText [] upper u)).amounts
    have hbefore := h.before.amounts
    obtain ⟨t, ht, hdecodes⟩ := hbefore.decodes
    obtain ⟨t', ht', hdecodes'⟩ := hrest.decodes
    obtain ⟨s, hs, hwhole⟩ := (hbefore.append heven (.unit upper hu hrest)).decodes
    have hlone' : Utf16.Decodes (units before ++ u :: units rest) (t ++ '\uFFFD' :: t') :=
      hdecodes.append_lone hhigh (fun v vs => hrest.isLow_eq_false hlone) hdecodes'
    refine ⟨t, t', ht, ht', ?_⟩
    rw [← hwhole.unique hlone', ← hs]
    rfl

/-- Halves of pairs behind one another: two first ones and a second one, and then one that an
escaped backslash and a character of two units follow. -/
def halves : List Char := "\\uD83D\\uD83D\\uDE00\\uD83D\\\\u😀".toList

theorem unescape_decodes_halves : Hexadecimal halves ∧
    units halves = [0xD83D, 0xD83D, 0xDE00, 0xD83D, 0x5C, 0x75, 0xD83D, 0xDE00] ∧
    (∃ t, unescape halves = .ok t ∧ ∀ t', Utf16.Decodes (units halves) t' ↔ t' = t) ∧
    ∃ t t', unescape "\\uD83D\\uD83D\\uDE00".toList = .ok t ∧
      unescape "\\\\u😀".toList = .ok t' ∧ unescape halves = .ok (t ++ '\uFFFD' :: t') := by
  have hhalves : Hexadecimal halves := by decide
  refine ⟨hhalves, by decide, (unescape_decodes hhalves).1, ?_⟩
  refine (unescape_decodes hhalves).2 _ "D83D".toList _ ⟨by decide, by decide⟩ rfl (by decide) ?_
  intro digits rest heq
  cases heq

end Properties

end LiveConfig
