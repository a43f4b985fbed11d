import LiveConfig.Proofs.Requests
import LiveConfig.Text.Utf8

/-!
# Reading back UTF-8

A character is spelled with one to four bytes, whose lead byte says how many there are and whose
other bytes carry six bits each. The ranges that the reader checks leave one spelling for every
character, the one that is written (`spells_iff`), and since no spelling is the beginning of another
one the reader gives back precisely the texts that were written.

## Main definitions

* `Spells` — bytes that the reader takes for a character

## Main results

* `spells_iff` — a character is spelled in one way
* `decode_eq_ok_iff` — what is read is what was written
-/

namespace LiveConfig.Text.Utf8

/-! ### Ranges of bytes -/

variable {a b : UInt8}

theorem leadsOne_iff : a < 0x80 ↔ a.toNat < 0x80 := UInt8.lt_iff_toNat_lt

theorem leadsTwo_iff : (0xC2 ≤ a && a ≤ 0xDF) = true ↔ 0xC2 ≤ a.toNat ∧ a.toNat ≤ 0xDF := by
  simp [UInt8.le_iff_toNat_le]

theorem leadsThree_iff : (0xE0 ≤ a && a ≤ 0xEF) = true ↔ 0xE0 ≤ a.toNat ∧ a.toNat ≤ 0xEF := by
  simp [UInt8.le_iff_toNat_le]

theorem leadsFour_iff : (0xF0 ≤ a && a ≤ 0xF4) = true ↔ 0xF0 ≤ a.toNat ∧ a.toNat ≤ 0xF4 := by
  simp [UInt8.le_iff_toNat_le]

theorem isContinuation_iff :
    isContinuation b = true ↔ 0x80 ≤ b.toNat ∧ b.toNat ≤ 0xBF := by
  simp [isContinuation, UInt8.le_iff_toNat_le]

theorem fitsThree_iff : fitsThree a b = true ↔
    a.toNat = 0xE0 ∧ 0xA0 ≤ b.toNat ∧ b.toNat ≤ 0xBF ∨
    (0xE1 ≤ a.toNat ∧ a.toNat ≤ 0xEC ∨ 0xEE ≤ a.toNat ∧ a.toNat ≤ 0xEF) ∧
      0x80 ≤ b.toNat ∧ b.toNat ≤ 0xBF ∨
    a.toNat = 0xED ∧ 0x80 ≤ b.toNat ∧ b.toNat ≤ 0x9F := by
  simp only [fitsThree, isContinuation, Bool.or_eq_true, Bool.and_eq_true, beq_iff_eq,
    decide_eq_true_eq, UInt8.le_iff_toNat_le, ← UInt8.toNat_inj, UInt8.reduceToNat]
  omega

theorem fitsFour_iff : fitsFour a b = true ↔
    a.toNat = 0xF0 ∧ 0x90 ≤ b.toNat ∧ b.toNat ≤ 0xBF ∨
    (0xF1 ≤ a.toNat ∧ a.toNat ≤ 0xF3) ∧ 0x80 ≤ b.toNat ∧ b.toNat ≤ 0xBF ∨
    a.toNat = 0xF4 ∧ 0x80 ≤ b.toNat ∧ b.toNat ≤ 0x8F := by
  simp only [fitsFour, isContinuation, Bool.or_eq_true, Bool.and_eq_true, beq_iff_eq,
    decide_eq_true_eq, UInt8.le_iff_toNat_le, ← UInt8.toNat_inj, UInt8.reduceToNat]
  omega

/-! ### Spellings -/

/-- The bytes that the reader takes for a character. -/
inductive Spells (c : Char) : List UInt8 → Prop
  | one {a : UInt8} (ha : a.toNat < 0x80) (hc : c.toNat = a.toNat) : Spells c [a]
  | two {a b : UInt8} (ha : 0xC2 ≤ a.toNat ∧ a.toNat ≤ 0xDF) (hb : isContinuation b = true)
      (hc : c.toNat = a.toNat % 32 * 64 + low b) : Spells c [a, b]
  | three {a b d : UInt8} (hb : fitsThree a b = true) (hd : isContinuation d = true)
      (hc : c.toNat = (a.toNat % 16 * 64 + low b) * 64 + low d) : Spells c [a, b, d]
  | four {a b d e : UInt8} (hb : fitsFour a b = true) (hd : isContinuation d = true)
      (he : isContinuation e = true)
      (hc : c.toNat = ((a.toNat % 8 * 64 + low b) * 64 + low d) * 64 + low e) :
      Spells c [a, b, d, e]

theorem toNat_ofNat {n : Nat} (h : n < 256) : (UInt8.ofNat n).toNat = n :=
  UInt8.toNat_ofNat_of_lt' h

theorem eq_ofNat_iff {n : Nat} {b : UInt8} (h : n < 256) : b = UInt8.ofNat n ↔ b.toNat = n := by
  rw [← UInt8.toNat_inj, toNat_ofNat h]

/-- What spells a character is how it is written. -/
theorem Spells.eq_encode {c : Char} {bs : List UInt8} (h : Spells c bs) :
    bs = String.utf8EncodeChar c := by
  have hval : c.val.toNat = c.toNat := rfl
  rw [String.utf8EncodeChar, hval]
  cases h with
  | @one a ha hc =>
    rw [if_pos (by omega), hc, UInt8.ofNat_toNat]
  | @two a b ha hb hc =>
    rw [isContinuation_iff] at hb
    rw [low] at hc
    rw [if_neg (by omega), if_pos (by omega)]
    have h₁ := (eq_ofNat_iff (b := a) (n := c.toNat / 64 % 32 + 192) (by omega)).mpr (by omega)
    have h₂ := (eq_ofNat_iff (b := b) (n := c.toNat % 64 + 128) (by omega)).mpr (by omega)
    rw [← h₁, ← h₂]
  | @three a b d hb hd hc =>
    rw [fitsThree_iff] at hb
    rw [isContinuation_iff] at hd
    rw [low, low] at hc
    rw [if_neg (by omega), if_neg (by omega), if_pos (by omega)]
    have h₁ := (eq_ofNat_iff (b := a) (n := c.toNat / 4096 % 16 + 224) (by omega)).mpr (by omega)
    have h₂ := (eq_ofNat_iff (b := b) (n := c.toNat / 64 % 64 + 128) (by omega)).mpr (by omega)
    have h₃ := (eq_ofNat_iff (b := d) (n := c.toNat % 64 + 128) (by omega)).mpr (by omega)
    rw [← h₁, ← h₂, ← h₃]
  | @four a b d e hb hd he hc =>
    rw [fitsFour_iff] at hb
    rw [isContinuation_iff] at hd he
    rw [low, low, low] at hc
    rw [if_neg (by omega), if_neg (by omega), if_neg (by omega)]
    have h₁ := (eq_ofNat_iff (b := a) (n := c.toNat / 262144 % 8 + 240) (by omega)).mpr (by omega)
    have h₂ := (eq_ofNat_iff (b := b) (n := c.toNat / 4096 % 64 + 128) (by omega)).mpr (by omega)
    have h₃ := (eq_ofNat_iff (b := d) (n := c.toNat / 64 % 64 + 128) (by omega)).mpr (by omega)
    have h₄ := (eq_ofNat_iff (b := e) (n := c.toNat % 64 + 128) (by omega)).mpr (by omega)
    rw [← h₁, ← h₂, ← h₃, ← h₄]

/-- How a character is written spells it. Surrogates have no place among the ranges, and there is
no such character. -/
theorem spells_encode (c : Char) : Spells c (String.utf8EncodeChar c) := by
  have hval : c.val.toNat = c.toNat := rfl
  have hvalid : c.toNat < 0xD800 ∨ 0xDFFF < c.toNat ∧ c.toNat < 0x110000 := c.valid
  rw [String.utf8EncodeChar, hval]
  split
  case isTrue h =>
    exact .one (by rw [toNat_ofNat (by omega)]; omega) (toNat_ofNat (by omega)).symm
  split
  case isTrue h =>
    have h₁ := toNat_ofNat (n := c.toNat / 64 % 32 + 192) (by omega)
    have h₂ := toNat_ofNat (n := c.toNat % 64 + 128) (by omega)
    refine .two ?_ (isContinuation_iff.mpr ?_) ?_
    · omega
    · omega
    · rw [low]
      omega
  split
  case isTrue h =>
    have h₁ := toNat_ofNat (n := c.toNat / 4096 % 16 + 224) (by omega)
    have h₂ := toNat_ofNat (n := c.toNat / 64 % 64 + 128) (by omega)
    have h₃ := toNat_ofNat (n := c.toNat % 64 + 128) (by omega)
    refine .three (fitsThree_iff.mpr ?_) (isContinuation_iff.mpr ?_) ?_
    · omega
    · omega
    · rw [low, low]
      omega
  case isFalse h =>
    have h₁ := toNat_ofNat (n := c.toNat / 262144 % 8 + 240) (by omega)
    have h₂ := toNat_ofNat (n := c.toNat / 4096 % 64 + 128) (by omega)
    have h₃ := toNat_ofNat (n := c.toNat / 64 % 64 + 128) (by omega)
    have h₄ := toNat_ofNat (n := c.toNat % 64 + 128) (by omega)
    refine .four (fitsFour_iff.mpr ?_) (isContinuation_iff.mpr ?_) (isContinuation_iff.mpr ?_) ?_
    · omega
    · omega
    · omega
    · rw [low, low, low]
      omega

/-- **A character is spelled in one way**, which is how it is written. -/
theorem spells_iff {c : Char} {bs : List UInt8} :
    Spells c bs ↔ bs = String.utf8EncodeChar c := by
  constructor
  · exact Spells.eq_encode
  · rintro rfl
    exact spells_encode c

/-! ### Reading -/

theorem encode_cons (c : Char) (cs : List Char) :
    encode (c :: cs) = String.utf8EncodeChar c ++ encode cs := rfl

theorem toNat_charOfNat {n : Nat} (h : n < 0xD800 ∨ 0xDFFF < n ∧ n < 0x110000) :
    (Char.ofNat n).toNat = n := by
  rw [Char.ofNat, dif_pos h]
  rfl

/-- What spells a character was written if what follows it was. -/
theorem append_eq_encode {c : Char} {t r : List UInt8} {x : Except Fault (List Char)}
    (ht : Spells c t) (hr : ∀ {cs}, x = .ok cs → r = encode cs) {cs : List Char}
    (h : (do let ds ← x; return c :: ds) = .ok cs) : t ++ r = encode cs := by
  obtain ⟨ds, hds, hpure⟩ := bind_eq_ok.mp h
  cases hpure
  rw [hr hds, spells_iff.mp ht, encode_cons]

/-- What the reader accepts was written. -/
theorem eq_encode_of_decodeFrom {i : Nat} {bs : List UInt8} {cs : List Char}
    (h : decodeFrom i bs = .ok cs) : bs = encode cs := by
  fun_induction decodeFrom i bs generalizing cs
  case case1 =>
    cases h
    rfl
  case case2 a r ha ih =>
    rw [leadsOne_iff] at ha
    refine append_eq_encode (t := [a]) (.one ha (toNat_charOfNat (Or.inl ?_))) ih h
    omega
  case case4 a _ ha b r hb ih =>
    rw [leadsTwo_iff] at ha
    refine append_eq_encode (t := [a, b]) (.two ha hb (toNat_charOfNat (Or.inl ?_))) ih h
    rw [low]
    omega
  case case8 a _ _ _ b hb d r hd ih =>
    refine append_eq_encode (t := [a, b, d]) (.three hb hd (toNat_charOfNat ?_)) ih h
    rw [fitsThree_iff] at hb
    rw [low, low]
    omega
  case case14 a _ _ _ _ b hb d hd e r he ih =>
    refine append_eq_encode (t := [a, b, d, e]) (.four hb hd he (toNat_charOfNat ?_)) ih h
    rw [fitsFour_iff] at hb
    rw [low, low, low]
    omega
  all_goals cases h

/-- The reader takes what spells a character for that character. -/
theorem decodeFrom_append {c : Char} {t : List UInt8} (h : Spells c t) (i : Nat)
    (r : List UInt8) :
    decodeFrom i (t ++ r) = (do let cs ← decodeFrom (i + t.length) r; return c :: cs) := by
  cases h with
  | @one a ha hc =>
    have h₁ := leadsOne_iff.mpr ha
    rw [List.singleton_append, decodeFrom.eq_def]
    simp only [h₁, if_true, ← hc, Char.ofNat_toNat]
    rfl
  | @two a b ha hb hc =>
    have h₁ : ¬ a < 0x80 := mt leadsOne_iff.mp (by omega)
    have h₂ := leadsTwo_iff.mpr ha
    rw [List.cons_append, List.singleton_append, decodeFrom.eq_def]
    simp only [h₁, h₂, hb, if_true, if_false, ← hc, Char.ofNat_toNat]
    rfl
  | @three a b d hb hd hc =>
    have ha := fitsThree_iff.mp hb
    have h₁ : ¬ a < 0x80 := mt leadsOne_iff.mp (by omega)
    have h₂ : ¬ (0xC2 ≤ a && a ≤ 0xDF) = true := mt leadsTwo_iff.mp (by omega)
    have h₃ := (leadsThree_iff (a := a)).mpr (by omega)
    rw [List.cons_append, List.cons_append, List.singleton_append, decodeFrom.eq_def]
    simp only [h₁, h₂, h₃, hb, hd, if_true, if_false, ← hc, Char.ofNat_toNat]
    rfl
  | @four a b d e hb hd he hc =>
    have ha := fitsFour_iff.mp hb
    have h₁ : ¬ a < 0x80 := mt leadsOne_iff.mp (by omega)
    have h₂ : ¬ (0xC2 ≤ a && a ≤ 0xDF) = true := mt leadsTwo_iff.mp (by omega)
    have h₃ : ¬ (0xE0 ≤ a && a ≤ 0xEF) = true := mt leadsThree_iff.mp (by omega)
    have h₄ := (leadsFour_iff (a := a)).mpr (by omega)
    rw [List.cons_append, List.cons_append, List.cons_append, List.singleton_append,
      decodeFrom.eq_def]
    simp only [h₁, h₂, h₃, h₄, hb, hd, he, if_true, if_false, ← hc, Char.ofNat_toNat]
    rfl

/-- **What is read is what was written.** -/
theorem decodeFrom_eq_ok_iff {i : Nat} {bs : List UInt8} {cs : List Char} :
    decodeFrom i bs = .ok cs ↔ bs = encode cs := by
  refine ⟨eq_encode_of_decodeFrom, ?_⟩
  rintro rfl
  induction cs generalizing i with
  | nil => rfl
  | cons c cs ih => rw [encode_cons, decodeFrom_append (spells_iff.mpr rfl), ih]; rfl

theorem decode_eq_ok_iff {bs : List UInt8} {cs : List Char} :
    decode bs = .ok cs ↔ bs = encode cs :=
  decodeFrom_eq_ok_iff

/-- Different texts are written differently. -/
theorem encode_injective {cs ds : List Char} (h : encode cs = encode ds) : cs = ds := by
  have hread := decode_eq_ok_iff.mpr h
  rw [decode_eq_ok_iff.mpr rfl] at hread
  exact Except.ok.inj hread

end LiveConfig.Text.Utf8
