import LiveConfig.Proofs.Utf8
import LiveConfig.Text.Base64
import Mathlib.Algebra.Group.Nat.Defs

/-!
# Canonical Base64

What the canonical form of bytes is can be said without quads: the bits of the bytes, filled up with
zeros to whole symbols of six bits, and the symbols filled up with padding to whole quads
(`Canonical`). There is one such form, the one that is written, and the reader accepts nothing else:
no other padding, no stray symbol, and no last symbol with bits that belong to no byte.

## Main definitions

* `alphabet` — the symbols, in the order of their numbers
* `Canonical` — a text is the canonical form of bytes

## Main results

* `canonical_iff` — the canonical form is what is written
* `decode_eq_ok_iff` — what is read is what was written
-/

namespace LiveConfig.Text.Base64

/-! ### The canonical form -/

/-- The symbols, in the order of the numbers that they stand for. -/
def alphabet : Vector Char 64 :=
  ⟨"ABCDEFGHIJKLMNOPQRSTUVWXYZabcdefghijklmnopqrstuvwxyz0123456789+/".toList.toArray, by decide⟩

/-- The lowest bits of a number, the highest of them first. -/
def bits : Nat → Nat → List Bool
  | 0, _ => []
  | width + 1, n => bits width (n / 2) ++ [n.testBit 0]

/-- A text is the canonical form of bytes: symbols, and then padding. The bits of the symbols are
those of the bytes and as few zeros as it takes to have whole symbols; and there is as little padding
as it takes to have whole quads. -/
def Canonical (bs : List UInt8) (cs : List Char) : Prop :=
  ∃ (numbers : List (Fin 64)) (fill padding : Nat), fill < 6 ∧ padding < 4 ∧
    numbers.flatMap (fun n => bits 6 n.val) =
      bs.flatMap (fun b => bits 8 b.toNat) ++ List.replicate fill false ∧
    cs = numbers.map (fun n => alphabet[n]) ++ List.replicate padding '=' ∧ cs.length % 4 = 0

theorem alphabet_eq_symbol : ∀ n : Fin 64, alphabet[n] = symbol n := by
  decide +kernel

theorem length_bits (width n : Nat) : (bits width n).length = width := by
  induction width generalizing n with
  | zero => rfl
  | succ width ih => rw [bits, List.length_append, ih, List.length_singleton]

theorem length_flatMap_bits {α : Type} (width : Nat) (f : α → Nat) (xs : List α) :
    (xs.flatMap fun x => bits width (f x)).length = width * xs.length := by
  induction xs with
  | nil => rfl
  | cons x xs ih =>
    rw [List.flatMap_cons, List.length_append, length_bits, ih, List.length_cons, Nat.mul_succ,
      Nat.add_comm]

/-- The bits of a number are those of its upper part and those of its lower part. -/
theorem bits_add (m k n : Nat) : bits (m + k) n = bits m (n / 2 ^ k) ++ bits k (n % 2 ^ k) := by
  induction k generalizing n with
  | zero => simp [bits]
  | succ k ih =>
    rw [← Nat.add_assoc, bits, ih, bits, List.append_assoc]
    have hupper : n / 2 / 2 ^ k = n / 2 ^ (k + 1) := by
      rw [Nat.div_div_eq_div_mul, Nat.pow_succ']
    have hlower : n / 2 % 2 ^ k = n % 2 ^ (k + 1) / 2 := by
      rw [Nat.pow_succ', Nat.mod_mul_right_div_self]
    have hlast : n.testBit 0 = (n % 2 ^ (k + 1)).testBit 0 := by
      simp
    rw [hupper, hlower, hlast]

theorem bits_injective {width m n : Nat} (hm : m < 2 ^ width) (hn : n < 2 ^ width)
    (h : bits width m = bits width n) : m = n := by
  induction width generalizing m n with
  | zero => omega
  | succ width ih =>
    obtain ⟨hupper, hlast⟩ := List.append_inj' h rfl
    have hhalf := ih (by omega) (by omega) hupper
    have hparity : m % 2 = 1 ↔ n % 2 = 1 := by simpa [Nat.testBit_zero] using hlast
    omega

/-- Blocks of one length determine what they were made of. -/
theorem flatMap_injective {α β : Type} {f : α → List β} {width : Nat} (hwidth : 0 < width)
    (hlength : ∀ a, (f a).length = width) (hf : ∀ a b, f a = f b → a = b) {xs ys : List α}
    (h : xs.flatMap f = ys.flatMap f) : xs = ys := by
  induction xs generalizing ys with
  | nil =>
    cases ys with
    | nil => rfl
    | cons y ys =>
      have hy := hlength y
      rw [(List.append_eq_nil_iff.mp h.symm).1] at hy
      exact absurd hy (Nat.ne_of_lt hwidth)
  | cons x xs ih =>
    cases ys with
    | nil =>
      have hx := hlength x
      rw [(List.append_eq_nil_iff.mp h).1] at hx
      exact absurd hx (Nat.ne_of_lt hwidth)
    | cons y ys =>
      obtain ⟨hhead, htail⟩ := List.append_inj h ((hlength x).trans (hlength y).symm)
      rw [hf x y hhead, ih htail]

theorem numbers_injective {xs ys : List (Fin 64)}
    (h : xs.flatMap (fun n => bits 6 n.val) = ys.flatMap (fun n => bits 6 n.val)) : xs = ys := by
  have hlength : ∀ n : Fin 64, (bits 6 n.val).length = 6 := fun n => length_bits 6 n.val
  have hsymbol : ∀ m n : Fin 64, bits 6 m.val = bits 6 n.val → m = n :=
    fun m n h => Fin.ext (bits_injective m.isLt n.isLt h)
  exact flatMap_injective (f := fun n : Fin 64 => bits 6 n.val) (by decide) hlength hsymbol h

/-- Bytes have one canonical form. -/
theorem Canonical.unique {bs : List UInt8} {cs ds : List Char} (hcs : Canonical bs cs)
    (hds : Canonical bs ds) : cs = ds := by
  obtain ⟨numbers, fill, padding, hfill, hpadding, hbits, rfl, hquads⟩ := hcs
  obtain ⟨numbers', fill', padding', hfill', hpadding', hbits', rfl, hquads'⟩ := hds
  have hlength := congrArg List.length hbits
  have hlength' := congrArg List.length hbits'
  simp only [List.length_append, length_flatMap_bits, List.length_replicate] at hlength hlength'
  simp only [List.length_append, List.length_map, List.length_replicate] at hquads hquads'
  -- How many bytes there are decides how many zeros make whole symbols, and so how many symbols
  -- there are and how much padding makes whole quads.
  obtain rfl : fill = fill' := by omega
  obtain rfl : padding = padding' := by omega
  rw [numbers_injective (hbits.trans hbits'.symm)]

/-! ### What is written -/

section

variable (a b : UInt8)

/-! The numbers of the four symbols of a quad. -/

theorem first_lt : a.toNat / 4 < 64 := by
  have ha := a.toNat_lt
  omega

theorem second_lt : a.toNat % 4 * 16 + b.toNat / 16 < 64 := by
  have hb := b.toNat_lt
  omega

theorem third_lt : a.toNat % 16 * 4 + b.toNat / 64 < 64 := by
  have hb := b.toNat_lt
  omega

theorem fourth_lt : a.toNat % 64 < 64 :=
  Nat.mod_lt _ (by decide)

/-- Before padding the numbers are those that come before a zero. -/
theorem second_fill_lt : a.toNat % 4 * 16 < 64 := second_lt a 0

theorem third_fill_lt : a.toNat % 16 * 4 < 64 := third_lt a 0

/-! Their bits. -/

theorem bits_six_two : bits 8 a.toNat = bits 6 (a.toNat / 4) ++ bits 2 (a.toNat % 4) :=
  bits_add 6 2 a.toNat

theorem bits_four_four : bits 8 a.toNat = bits 4 (a.toNat / 16) ++ bits 4 (a.toNat % 16) :=
  bits_add 4 4 a.toNat

theorem bits_two_six : bits 8 a.toNat = bits 2 (a.toNat / 64) ++ bits 6 (a.toNat % 64) :=
  bits_add 2 6 a.toNat

/-- The second symbol of a quad has the last bits of a byte and the first bits of the next one. -/
theorem bits_two_four : bits 6 (a.toNat % 4 * 16 + b.toNat / 16) =
    bits 2 (a.toNat % 4) ++ bits 4 (b.toNat / 16) := by
  have hb := b.toNat_lt
  have hupper : (a.toNat % 4 * 16 + b.toNat / 16) / 2 ^ 4 = a.toNat % 4 := by omega
  have hlower : (a.toNat % 4 * 16 + b.toNat / 16) % 2 ^ 4 = b.toNat / 16 := by omega
  rw [bits_add 2 4, hupper, hlower]

/-- The third symbol of a quad, likewise. -/
theorem bits_four_two : bits 6 (a.toNat % 16 * 4 + b.toNat / 64) =
    bits 4 (a.toNat % 16) ++ bits 2 (b.toNat / 64) := by
  have hb := b.toNat_lt
  have hupper : (a.toNat % 16 * 4 + b.toNat / 64) / 2 ^ 2 = a.toNat % 16 := by omega
  have hlower : (a.toNat % 16 * 4 + b.toNat / 64) % 2 ^ 2 = b.toNat / 64 := by omega
  rw [bits_add 4 2, hupper, hlower]

/-- Before padding the bits of the next byte are zeros. -/
theorem bits_two_fill :
    bits 6 (a.toNat % 4 * 16) = bits 2 (a.toNat % 4) ++ List.replicate 4 false :=
  bits_two_four a 0

theorem bits_four_fill :
    bits 6 (a.toNat % 16 * 4) = bits 4 (a.toNat % 16) ++ List.replicate 2 false :=
  bits_four_two a 0

end

/-- What is written for bytes is their canonical form. -/
theorem canonical_encode (bs : List UInt8) : Canonical bs (encode bs) := by
  fun_induction encode bs
  case case1 => exact ⟨[], 0, 0, by decide, by decide, rfl, rfl, rfl⟩
  case case2 a =>
    refine ⟨[⟨_, first_lt a⟩, ⟨_, second_fill_lt a⟩], 4, 2, by decide, by decide, ?_, ?_,
      Nat.mod_self 4⟩
    · simp only [List.flatMap_cons, List.flatMap_nil, List.append_nil, List.append_assoc,
        bits_six_two, bits_two_fill]
    · simp only [List.map_cons, List.map_nil, alphabet_eq_symbol]
      rfl
  case case3 a b =>
    refine ⟨[⟨_, first_lt a⟩, ⟨_, second_lt a b⟩, ⟨_, third_fill_lt b⟩], 2, 1, by decide,
      by decide, ?_, ?_, Nat.mod_self 4⟩
    · simp only [List.flatMap_cons, List.flatMap_nil, List.append_nil, List.append_assoc,
        bits_six_two a, bits_two_four, bits_four_four b, bits_four_fill]
    · simp only [List.map_cons, List.map_nil, alphabet_eq_symbol]
      rfl
  case case4 a b c r ih =>
    obtain ⟨numbers, fill, padding, hfill, hpadding, hbits, heq, hquads⟩ := ih
    refine ⟨⟨_, first_lt a⟩ :: ⟨_, second_lt a b⟩ :: ⟨_, third_lt b c⟩ :: ⟨_, fourth_lt c⟩ ::
      numbers, fill, padding, hfill, hpadding, ?_, ?_, ?_⟩
    · simp only [List.flatMap_cons, List.append_assoc, bits_six_two a, bits_two_four,
        bits_four_four b, bits_four_two, bits_two_six c, hbits]
    · simp only [List.map_cons, List.cons_append, alphabet_eq_symbol, heq]
    · simp only [List.length_cons]
      omega

/-- **The canonical form** is what is written. -/
theorem canonical_iff {bs : List UInt8} {cs : List Char} : Canonical bs cs ↔ cs = encode bs := by
  constructor
  · exact fun h => h.unique (canonical_encode bs)
  · rintro rfl
    exact canonical_encode bs

/-! ### Symbols and their numbers -/

/-- The bytes of a symbol. -/
def spelled (n : Nat) : List UInt8 := String.utf8EncodeChar (symbol n)

/-- A byte has a number if and only if it is the symbol of that number. -/
theorem value?_eq_some_iff {b : UInt8} {n : Nat} :
    value? b = some n ↔ n < 64 ∧ spelled n = [b] := by
  constructor
  · have htable : ∀ i : Fin 256, ∀ m ∈ value? (.ofFin i), m < 64 ∧ spelled m = [.ofFin i] := by
      decide +kernel
    exact fun h => htable b.toFin n h
  · rintro ⟨hn, hb⟩
    have htable : ∀ i : Fin 64, (spelled i).map value? = [some i.val] := by
      decide +kernel
    have hvalue := htable ⟨n, hn⟩
    rw [hb] at hvalue
    exact List.singleton_inj.mp hvalue

theorem value?_pad : value? pad = none := rfl

theorem length_spelled {n : Nat} (h : n < 64) : (spelled n).length = 1 := by
  have htable : ∀ i : Fin 64, (spelled i).length = 1 := by
    decide +kernel
  exact htable ⟨n, h⟩

/-- Every number below 64 has a symbol of one byte, which is no padding. -/
theorem exists_spelled {n : Nat} (h : n < 64) :
    ∃ b, spelled n = [b] ∧ value? b = some n ∧ b ≠ pad := by
  obtain ⟨b, hb⟩ := List.length_eq_one_iff.mp (length_spelled h)
  have hvalue := value?_eq_some_iff.mpr ⟨h, hb⟩
  refine ⟨b, hb, hvalue, ?_⟩
  rintro rfl
  rw [value?_pad] at hvalue
  cases hvalue

theorem valueAt_eq_ok_iff {b : UInt8} {offset n : Nat} :
    valueAt b offset = .ok n ↔ n < 64 ∧ spelled n = [b] := by
  rw [valueAt, ← value?_eq_some_iff]
  cases value? b with
  | none => exact ⟨nofun, nofun⟩
  | some m => simp

/-- The bytes of four numbers are written with their symbols. -/
theorem encode_bytesOf {w x y z : Nat} (hw : w < 64) (hx : x < 64) (hy : y < 64) (hz : z < 64)
    (r : List UInt8) :
    encode (bytesOf w x y z ++ r) = symbol w :: symbol x :: symbol y :: symbol z :: encode r := by
  have hfirst := Utf8.toNat_ofNat (n := w * 4 + x / 16) (by omega)
  have hsecond := Utf8.toNat_ofNat (n := x % 16 * 16 + y / 4) (by omega)
  have hthird := Utf8.toNat_ofNat (n := y % 4 * 64 + z) (by omega)
  have hw' : (w * 4 + x / 16) / 4 = w := by omega
  have hx' : (w * 4 + x / 16) % 4 * 16 + (x % 16 * 16 + y / 4) / 16 = x := by omega
  have hy' : (x % 16 * 16 + y / 4) % 16 * 4 + (y % 4 * 64 + z) / 64 = y := by omega
  have hz' : (y % 4 * 64 + z) % 64 = z := by omega
  rw [bytesOf, List.cons_append, List.cons_append, List.cons_append, List.nil_append, encode,
    hfirst, hsecond, hthird, hw', hx', hy', hz']

/-- The numbers that are written for three bytes are those of the bytes. -/
theorem bytesOf_eq (a b c : UInt8) :
    bytesOf (a.toNat / 4) (a.toNat % 4 * 16 + b.toNat / 16) (b.toNat % 16 * 4 + c.toNat / 64)
      (c.toNat % 64) = [a, b, c] := by
  have ha := a.toNat_lt
  have hb := b.toNat_lt
  have hc := c.toNat_lt
  have hfirst : a = UInt8.ofNat (a.toNat / 4 * 4 + (a.toNat % 4 * 16 + b.toNat / 16) / 16) :=
    (Utf8.eq_ofNat_iff (by omega)).mpr (by omega)
  have hsecond : b = UInt8.ofNat ((a.toNat % 4 * 16 + b.toNat / 16) % 16 * 16 +
      (b.toNat % 16 * 4 + c.toNat / 64) / 4) :=
    (Utf8.eq_ofNat_iff (by omega)).mpr (by omega)
  have hthird : c = UInt8.ofNat ((b.toNat % 16 * 4 + c.toNat / 64) % 4 * 64 + c.toNat % 64) :=
    (Utf8.eq_ofNat_iff (by omega)).mpr (by omega)
  rw [bytesOf, ← hfirst, ← hsecond, ← hthird]

/-- One byte is written with two symbols. -/
theorem encode_take_one {w x : Nat} (hw : w < 64) (hx : x < 64) (hzeros : x % 16 = 0) :
    encode ((bytesOf w x 0 0).take 1) = [symbol w, symbol x, '=', '='] := by
  have hfirst := Utf8.toNat_ofNat (n := w * 4 + x / 16) (by omega)
  have hw' : (w * 4 + x / 16) / 4 = w := by omega
  have hx' : (w * 4 + x / 16) % 4 * 16 = x := by omega
  rw [bytesOf, List.take_succ_cons, List.take_zero, encode, hfirst, hw', hx']

/-- Two bytes are written with three symbols. -/
theorem encode_take_two {w x y : Nat} (hw : w < 64) (hx : x < 64) (hy : y < 64)
    (hzeros : y % 4 = 0) :
    encode ((bytesOf w x y 0).take 2) = [symbol w, symbol x, symbol y, '='] := by
  have hfirst := Utf8.toNat_ofNat (n := w * 4 + x / 16) (by omega)
  have hsecond := Utf8.toNat_ofNat (n := x % 16 * 16 + y / 4) (by omega)
  have hw' : (w * 4 + x / 16) / 4 = w := by omega
  have hx' : (w * 4 + x / 16) % 4 * 16 + (x % 16 * 16 + y / 4) / 16 = x := by omega
  have hy' : (x % 16 * 16 + y / 4) % 16 * 4 = y := by omega
  rw [bytesOf, List.take_succ_cons, List.take_succ_cons, List.take_zero, encode, hfirst, hsecond,
    hw', hx', hy']

/-! ### What is read -/

theorem ok_bind {ε α β : Type} (a : α) (f : α → Except ε β) : (Except.ok a >>= f) = f a := rfl

theorem encode_symbol (n : Nat) (cs : List Char) :
    Utf8.encode (symbol n :: cs) = spelled n ++ Utf8.encode cs := rfl

theorem encode_nil : Utf8.encode [] = [] := rfl

theorem encode_pad (cs : List Char) : Utf8.encode ('=' :: cs) = pad :: Utf8.encode cs := rfl

/-- The last quad as it is scanned: symbols, and padding, for which there have to be two symbols. -/
structure Scanned (quad : List UInt8) (values : List Nat) (padding : Nat) : Prop where
  quad_eq : quad = values.flatMap spelled ++ List.replicate padding pad
  length : values.length + padding = quad.length
  lt : ∀ n ∈ values, n < 64
  symbols : padding = 0 ∨ 2 ≤ values.length

theorem scanned_of_scanLast {offset padding : Nat} {quad : List UInt8} {values : List Nat}
    (h : scanLast offset quad = .ok (values, padding)) (hlength : quad.length ≤ 4) :
    Scanned quad values padding := by
  match quad, h with
  | [], h =>
    cases h
    exact ⟨rfl, rfl, nofun, Or.inl rfl⟩
  | [a], h =>
    obtain ⟨w, hw, hpure⟩ := bind_eq_ok.mp h
    cases hpure
    obtain ⟨hw, ha⟩ := valueAt_eq_ok_iff.mp hw
    exact ⟨by simp [ha], rfl, by simp [hw], Or.inl rfl⟩
  | [a, b], h =>
    obtain ⟨w, hw, h⟩ := bind_eq_ok.mp h
    obtain ⟨x, hx, hpure⟩ := bind_eq_ok.mp h
    cases hpure
    obtain ⟨hw, ha⟩ := valueAt_eq_ok_iff.mp hw
    obtain ⟨hx, hb⟩ := valueAt_eq_ok_iff.mp hx
    exact ⟨by simp [ha, hb], rfl, by simp [hw, hx], Or.inl rfl⟩
  | a :: b :: c :: r, h =>
    obtain ⟨w, hw, h⟩ := bind_eq_ok.mp h
    obtain ⟨x, hx, h⟩ := bind_eq_ok.mp h
    obtain ⟨hw, ha⟩ := valueAt_eq_ok_iff.mp hw
    obtain ⟨hx, hb⟩ := valueAt_eq_ok_iff.mp hx
    have hr : ∀ d s, r = d :: s → s = [] := by
      rintro d s rfl
      simp only [List.length_cons] at hlength
      exact List.eq_nil_of_length_eq_zero (by omega)
    by_cases hc : c = pad
    · rw [if_pos hc] at h
      match r, h with
      | [], h =>
        cases h
        exact ⟨by simp [ha, hb, hc], rfl, by simp [hw, hx], Or.inr (Nat.le_refl 2)⟩
      | d :: s, h =>
        obtain rfl := hr d s rfl
        by_cases hd : d = pad
        · simp only [hd, if_true] at h
          cases h
          exact ⟨by simp [ha, hb, hc, hd], rfl, by simp [hw, hx], Or.inr (Nat.le_refl 2)⟩
        · simp only [hd, if_false] at h
          cases h
    · rw [if_neg hc] at h
      obtain ⟨y, hy, h⟩ := bind_eq_ok.mp h
      obtain ⟨hy, hc⟩ := valueAt_eq_ok_iff.mp hy
      match r, h with
      | [], h =>
        cases h
        exact ⟨by simp [ha, hb, hc], rfl, by simp [hw, hx, hy], Or.inl rfl⟩
      | d :: s, h =>
        obtain rfl := hr d s rfl
        by_cases hd : d = pad
        · simp only [hd, if_true] at h
          cases h
          exact ⟨by simp [ha, hb, hc, hd], rfl, by simp [hw, hx, hy], Or.inr (Nat.le_succ 2)⟩
        · simp only [hd, if_false] at h
          obtain ⟨z, hz, hpure⟩ := bind_eq_ok.mp h
          obtain ⟨hz, hd⟩ := valueAt_eq_ok_iff.mp hz
          cases hpure
          exact ⟨by simp [ha, hb, hc, hd], rfl, by simp [hw, hx, hy, hz], Or.inl rfl⟩

/-- What the reader accepts as the last quad was written. -/
theorem eq_encode_of_decodeLast {offset : Nat} {quad bs : List UInt8}
    (h : decodeLast offset quad = .ok bs) (hlength : quad.length ≤ 4) :
    quad = Utf8.encode (encode bs) := by
  obtain ⟨⟨values, padding⟩, hscan, h⟩ := bind_eq_ok.mp h
  obtain ⟨hquad, hsum, hlt, hsymbols⟩ := scanned_of_scanLast hscan hlength
  rw [hquad]
  match values, h with
  | [], h =>
    cases h
    obtain rfl : padding = 0 := by simpa using hsymbols
    rfl
  | [_], h => cases h
  | [w, x], h =>
    simp only [List.forall_mem_cons] at hlt
    obtain ⟨hw, hx, -⟩ := hlt
    simp only at h
    split at h
    case isTrue => cases h
    case isFalse hpadding =>
    split at h
    case isTrue => cases h
    case isFalse hzeros =>
    cases h
    rw [Decidable.not_not.mp hpadding, encode_take_one hw hx (Decidable.not_not.mp hzeros)]
    simp only [encode_symbol, encode_pad, List.flatMap_cons, List.flatMap_nil, List.append_assoc,
      List.append_nil]
    rfl
  | [w, x, y], h =>
    simp only [List.forall_mem_cons] at hlt
    obtain ⟨hw, hx, hy, -⟩ := hlt
    simp only at h
    split at h
    case isTrue => cases h
    case isFalse hpadding =>
    split at h
    case isTrue => cases h
    case isFalse hzeros =>
    cases h
    rw [Decidable.not_not.mp hpadding, encode_take_two hw hx hy (Decidable.not_not.mp hzeros)]
    simp only [encode_symbol, encode_pad, List.flatMap_cons, List.flatMap_nil, List.append_assoc,
      List.append_nil]
    rfl
  | w :: x :: y :: z :: r, h =>
    simp only [List.forall_mem_cons] at hlt
    obtain ⟨hw, hx, hy, hz, -⟩ := hlt
    rw [← hsum] at hlength
    simp only [List.length_cons] at hlength
    obtain rfl : r = [] := List.eq_nil_of_length_eq_zero (by omega)
    obtain rfl : padding = 0 := by omega
    cases h
    rw [← List.append_nil (bytesOf w x y z), encode_bytesOf hw hx hy hz]
    simp only [encode_symbol, List.flatMap_cons, List.append_assoc]
    rfl

/-- What the reader accepts was written. -/
theorem eq_encode_of_decodeQuads {offset : Nat} {xs bs : List UInt8}
    (h : decodeQuads offset xs = .ok bs) : xs = Utf8.encode (encode bs) := by
  fun_induction decodeQuads offset xs generalizing bs
  case case1 offset a b c d e r ih =>
    obtain ⟨w, hw, h⟩ := bind_eq_ok.mp h
    obtain ⟨x, hx, h⟩ := bind_eq_ok.mp h
    obtain ⟨y, hy, h⟩ := bind_eq_ok.mp h
    obtain ⟨z, hz, h⟩ := bind_eq_ok.mp h
    obtain ⟨rest, hrest, hpure⟩ := bind_eq_ok.mp h
    obtain ⟨hw, ha⟩ := valueAt_eq_ok_iff.mp hw
    obtain ⟨hx, hb⟩ := valueAt_eq_ok_iff.mp hx
    obtain ⟨hy, hc⟩ := valueAt_eq_ok_iff.mp hy
    obtain ⟨hz, hd⟩ := valueAt_eq_ok_iff.mp hz
    cases hpure
    rw [encode_bytesOf hw hx hy hz, encode_symbol, encode_symbol, encode_symbol, encode_symbol,
      ha, hb, hc, hd, ← ih hrest]
    rfl
  case case2 offset quad hshort =>
    refine eq_encode_of_decodeLast h ?_
    match quad, hshort with
    | [], _ | [_], _ | [_, _], _ | [_, _, _], _ | [_, _, _, _], _ => simp
    | a :: b :: c :: d :: e :: r, hshort => exact absurd rfl (hshort a b c d e r)

/-- The reader gives back what was written. -/
theorem decodeQuads_encode (offset : Nat) (bs : List UInt8) :
    decodeQuads offset (Utf8.encode (encode bs)) = .ok bs := by
  fun_induction encode bs generalizing offset
  case case1 => rfl
  case case2 a =>
    obtain ⟨p, hp, hw, -⟩ := exists_spelled (first_lt a)
    obtain ⟨q, hq, hx, -⟩ := exists_spelled (second_fill_lt a)
    have hzeros : a.toNat % 4 * 16 % 16 = 0 := Nat.mul_mod_left _ 16
    have hbytes : (bytesOf (a.toNat / 4) (a.toNat % 4 * 16) 0 0).take 1 = [a] :=
      congrArg (List.take 1) (bytesOf_eq a 0 0)
    have hscan : scanLast offset [p, q, pad, pad] =
        .ok ([a.toNat / 4, a.toNat % 4 * 16], 2) := by
      simp only [scanLast, valueAt, hw, hx]
      rfl
    simp only [encode_symbol, encode_pad, encode_nil, hp, hq, List.singleton_append, decodeQuads,
      decodeLast, hscan, ok_bind, ne_eq, not_true_eq_false, if_false, hzeros, hbytes]
    rfl
  case case3 a b =>
    obtain ⟨p, hp, hw, -⟩ := exists_spelled (first_lt a)
    obtain ⟨q, hq, hx, -⟩ := exists_spelled (second_lt a b)
    obtain ⟨s, hs, hy, hpad⟩ := exists_spelled (third_fill_lt b)
    have hzeros : b.toNat % 16 * 4 % 4 = 0 := Nat.mul_mod_left _ 4
    have hbytes : (bytesOf (a.toNat / 4) (a.toNat % 4 * 16 + b.toNat / 16)
        (b.toNat % 16 * 4) 0).take 2 = [a, b] :=
      congrArg (List.take 2) (bytesOf_eq a b 0)
    have hscan : scanLast offset [p, q, s, pad] =
        .ok ([a.toNat / 4, a.toNat % 4 * 16 + b.toNat / 16, b.toNat % 16 * 4], 1) := by
      simp only [scanLast, valueAt, hw, hx, hy, hpad, if_false]
      rfl
    simp only [encode_symbol, encode_pad, encode_nil, hp, hq, hs, List.singleton_append,
      decodeQuads, decodeLast, hscan, ok_bind, ne_eq, not_true_eq_false, if_false, hzeros, hbytes]
    rfl
  case case4 a b c r ih =>
    obtain ⟨p, hp, hw, -⟩ := exists_spelled (first_lt a)
    obtain ⟨q, hq, hx, -⟩ := exists_spelled (second_lt a b)
    obtain ⟨s, hs, hy, hspad⟩ := exists_spelled (third_lt b c)
    obtain ⟨t, ht, hz, htpad⟩ := exists_spelled (fourth_lt c)
    simp only [encode_symbol, hp, hq, hs, ht, List.singleton_append]
    -- A quad at the end is scanned for padding, one before the end is not.
    cases hrest : Utf8.encode (encode r) with
    | nil =>
      have hr := ih offset
      rw [hrest] at hr
      obtain rfl : [] = r := Except.ok.inj hr
      have hscan : scanLast offset [p, q, s, t] = .ok ([a.toNat / 4,
          a.toNat % 4 * 16 + b.toNat / 16, b.toNat % 16 * 4 + c.toNat / 64, c.toNat % 64], 0) := by
        simp only [scanLast, valueAt, hw, hx, hy, hz, hspad, htpad, if_false]
        rfl
      simp only [decodeQuads, decodeLast, hscan, ok_bind, bytesOf_eq]
      rfl
    | cons d tail =>
      have hr := ih (offset + 4)
      rw [hrest] at hr
      simp only [decodeQuads, valueAt, hw, hx, hy, hz, hr, ok_bind, bytesOf_eq]
      rfl

/-- Whole quads are written. -/
theorem length_encode (bs : List UInt8) : (Utf8.encode (encode bs)).length % 4 = 0 := by
  fun_induction encode bs
  case case1 => rfl
  case case2 a =>
    simp only [encode_symbol, encode_pad, encode_nil, List.length_append, List.length_cons,
      List.length_nil, length_spelled (first_lt a), length_spelled (second_fill_lt a)]
  case case3 a b =>
    simp only [encode_symbol, encode_pad, encode_nil, List.length_append, List.length_cons,
      List.length_nil, length_spelled (first_lt a), length_spelled (second_lt a b),
      length_spelled (third_fill_lt b)]
  case case4 a b c r ih =>
    simp only [encode_symbol, List.length_append, length_spelled (first_lt a),
      length_spelled (second_lt a b), length_spelled (third_lt b c),
      length_spelled (fourth_lt c)]
    omega

/-- The complaint about a stray symbol at the end concerns no text that is written. -/
theorem decodeBytes_eq_ok_iff {xs bs : List UInt8} :
    decodeBytes xs = .ok bs ↔ xs = Utf8.encode (encode bs) := by
  rw [decodeBytes]
  constructor
  · intro h
    split at h
    case h_1 =>
      split at h
      case isTrue => cases h
      case isFalse => exact eq_encode_of_decodeQuads h
    case h_2 hlast =>
      cases h
      exact List.getLast?_eq_none_iff.mp hlast
  · rintro rfl
    have hquads := decodeQuads_encode 0 bs
    split
    case h_1 =>
      rw [if_neg (fun h => by simp [length_encode] at h), hquads]
    case h_2 hlast =>
      rw [List.getLast?_eq_none_iff.mp hlast] at hquads
      exact hquads

/-- **What is read is what was written.** -/
theorem decode_eq_ok_iff {cs : List Char} {bs : List UInt8} :
    decode cs = .ok bs ↔ cs = encode bs := by
  rw [decode, decodeBytes_eq_ok_iff]
  exact ⟨Utf8.encode_injective, congrArg Utf8.encode⟩

/-- Different bytes are written differently. -/
theorem encode_injective {bs ds : List UInt8} (h : encode bs = encode ds) : bs = ds := by
  have hread := decode_eq_ok_iff.mpr h
  rw [decode_eq_ok_iff.mpr rfl] at hread
  exact Except.ok.inj hread

end LiveConfig.Text.Base64
