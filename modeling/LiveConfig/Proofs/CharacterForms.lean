import LiveConfig.Proofs.WrittenProperties

/-!
# Forms of a character in a properties text

A character of a key or value can be written as it is, as a letter behind a backslash, behind a
backslash as it is, or by its UTF-16 units in hexadecimal digits of either case. The writer uses the
first three of these forms, and each of them only where it needs it; the reader has to understand
all of them, wherever they are.

A step of the reader does not ask for the form. The statements about it go by what it does see
(`Properties.Writes`): a character for itself, a letter behind a backslash, one unit, or a pair.

## Main definitions

* `Properties.Form`, `Properties.Piece` — a character in one of its forms
* `Properties.Piece.Legal` — the character can be written in that form
* `Properties.Writes` — a text that the reader takes for a character

## Main results

* `Properties.Piece.Legal.writes` — a character in one of its forms is taken for itself
* `Properties.Writes.unescapeFrom_append` — it stands for itself
* `Properties.Writes.splitKey_append` — it does not end a key, unless it is a bare separator
* `Properties.Writes.continues_append` — it does not make a line continue
-/

namespace LiveConfig

namespace Properties

/-! ### Units -/

/-- A hexadecimal digit, which has two cases if it is a letter. -/
def hexDigit (upper : Bool) (d : Nat) : Char :=
  Char.ofNat (if d < 10 then 48 + d else if upper then 55 + d else 87 + d)

/-- The four digits of a unit. It is told of each place whether a letter there is in upper case. -/
def unitDigits (upper : List Bool) (u : Nat) : List Char :=
  [hexDigit (upper.getD 0 false) (u / 0x1000 % 16), hexDigit (upper.getD 1 false) (u / 0x100 % 16),
    hexDigit (upper.getD 2 false) (u / 0x10 % 16), hexDigit (upper.getD 3 false) (u % 16)]

/-- A unit as an escape. -/
def unitText (upper : List Bool) (u : Nat) : List Char := '\\' :: 'u' :: unitDigits upper u

/-- The first of the two units of a character that has two. -/
def highUnit (c : Char) : Nat := 0xD800 + (c.toNat - 0x10000) / 0x400

/-- The second of the two units of a character that has two. -/
def lowUnit (c : Char) : Nat := 0xDC00 + (c.toNat - 0x10000) % 0x400

theorem hexDigit?_hexDigit : ∀ upper : Bool, ∀ d < 16, hexDigit? (hexDigit upper d) = some d := by
  decide

/-- A digit is a byte, and nothing that means something to the reader. -/
theorem hexDigit_plain : ∀ upper : Bool, ∀ d < 16, (hexDigit upper d).utf8Size = 1 ∧
    hexDigit upper d ∉ ['\\', '\r', '\n', '+'] ∧ isSeparator (hexDigit upper d) = false := by
  decide

theorem unitDigits_plain {upper : List Bool} {u : Nat} {c : Char} (h : c ∈ unitDigits upper u) :
    c.utf8Size = 1 ∧ c ∉ ['\\', '\r', '\n', '+'] ∧ isSeparator c = false := by
  simp only [unitDigits, List.mem_cons, List.not_mem_nil, or_false] at h
  rcases h with rfl | rfl | rfl | rfl <;> exact hexDigit_plain _ _ (by omega)

theorem hexNumber?_of_ne_plus {c : Char} (hc : c ≠ '+') (r : List Char) :
    hexNumber? (c :: r) = hexFrom 0 (c :: r) := by
  rw [hexNumber?]
  · exact fun h => absurd h (List.cons_ne_nil _ _)
  · exact fun h => hc (List.cons.inj h).1
  · exact fun _ h => hc (List.cons.inj h).1

/-- The digits of a unit form it. -/
theorem unitOf_unitDigits {u : Nat} (hu : u < 0x10000) (upper : List Bool) :
    unitOf (unitDigits upper u) = .ok u := by
  have hlength : byteLength (unitDigits upper u) = 4 := by
    simp only [byteLength, unitDigits, List.foldr_cons, List.foldr_nil]
    rw [(hexDigit_plain _ (u / 0x1000 % 16) (by omega)).1,
      (hexDigit_plain _ (u / 0x100 % 16) (by omega)).1,
      (hexDigit_plain _ (u / 0x10 % 16) (by omega)).1, (hexDigit_plain _ (u % 16) (by omega)).1]
  have hnumber : hexNumber? (unitDigits upper u) = some u := by
    have hplus : hexDigit (upper.getD 0 false) (u / 0x1000 % 16) ≠ '+' := by
      have hplain := (hexDigit_plain (upper.getD 0 false) (u / 0x1000 % 16) (by omega)).2.1
      intro h
      rw [h] at hplain
      exact hplain (by decide)
    rw [unitDigits, hexNumber?_of_ne_plus hplus]
    simp only [hexFrom]
    rw [hexDigit?_hexDigit _ _ (by omega), hexDigit?_hexDigit _ _ (by omega),
      hexDigit?_hexDigit _ _ (by omega), hexDigit?_hexDigit _ _ (by omega)]
    simp only [Option.some.injEq]
    omega
  simp [unitOf, hlength, hnumber]

theorem unescapeFrom_unit {u : Nat} (hu : u < 0x10000) (hhigh : isHigh u = false)
    (upper : List Bool) (fuel : Nat) (r : List Char) :
    unescapeFrom (fuel + 1) (unitText upper u ++ r) =
      (unescapeFrom fuel r).map (ofUnit u :: ·) := by
  have htake : (unitDigits upper u ++ r).take 4 = unitDigits upper u := rfl
  have hdrop : (unitDigits upper u ++ r).drop 4 = r := rfl
  rw [unitText, List.cons_append, List.cons_append, unescapeFrom, htake, hdrop,
    unitOf_unitDigits hu]
  simp only [bind, Except.bind, hhigh]
  cases unescapeFrom fuel r <;> rfl

theorem unescapeFrom_pair {u v : Nat} (hu : u < 0x10000) (hv : v < 0x10000)
    (hhigh : isHigh u = true) (hlow : isLow v = true) (upper upper' : List Bool) (fuel : Nat)
    (r : List Char) : unescapeFrom (fuel + 1) (unitText upper u ++ (unitText upper' v ++ r)) =
      (unescapeFrom fuel r).map (ofPair u v :: ·) := by
  have htake : (unitDigits upper u ++ (unitText upper' v ++ r)).take 4 = unitDigits upper u := rfl
  have hdrop : (unitDigits upper u ++ (unitText upper' v ++ r)).drop 4 =
      '\\' :: 'u' :: (unitDigits upper' v ++ r) := rfl
  have htake' : (unitDigits upper' v ++ r).take 4 = unitDigits upper' v := rfl
  have hdrop' : (unitDigits upper' v ++ r).drop 4 = r := rfl
  rw [unitText, List.cons_append, List.cons_append, unescapeFrom, htake, hdrop,
    unitOf_unitDigits hu]
  simp only [bind, Except.bind, hhigh, htake', hdrop', unitOf_unitDigits hv, hlow, if_true]
  cases unescapeFrom fuel r <;> rfl

/-! ### Forms -/

/-- How a character is written. -/
inductive Form where
  /-- As it is. -/
  | bare
  /-- By the letter that stands for it, behind a backslash. -/
  | letter
  /-- As it is, behind a backslash. -/
  | slashed
  /-- By its units. It is told of each digit whether a letter there is in upper case. -/
  | units (upper : List Bool)
  deriving DecidableEq

/-- A character of a key or value, and how it is written. -/
structure Piece where
  char : Char
  form : Form
  deriving DecidableEq

/-- The letter that stands for a character which has one. -/
def letterOf (c : Char) : Char :=
  if c = '\n' then 'n' else if c = '\t' then 't' else if c = '\r' then 'r' else 'f'

/-- A character as it is written. -/
def Piece.text : Piece → List Char
  | ⟨c, .bare⟩ => [c]
  | ⟨c, .letter⟩ => ['\\', letterOf c]
  | ⟨c, .slashed⟩ => ['\\', c]
  | ⟨c, .units upper⟩ =>
    if c.toNat < 0x10000 then unitText upper c.toNat
    else unitText upper (highUnit c) ++ unitText (upper.drop 4) (lowUnit c)

/-- Whether a character can be written in this form, apart from where it stands. -/
def Piece.Legal : Piece → Prop
  | ⟨c, .bare⟩ => c ∉ ['\\', '\r', '\n']
  | ⟨c, .letter⟩ => c ∈ ['\n', '\t', '\r', '\x0C']
  | ⟨c, .slashed⟩ => c ∉ ['n', 't', 'r', 'f', 'u', '\r', '\n']
  | ⟨_, .units _⟩ => True

instance : DecidablePred Piece.Legal
  | ⟨c, .bare⟩ => inferInstanceAs (Decidable (c ∉ ['\\', '\r', '\n']))
  | ⟨c, .letter⟩ => inferInstanceAs (Decidable (c ∈ ['\n', '\t', '\r', '\x0C']))
  | ⟨c, .slashed⟩ => inferInstanceAs (Decidable (c ∉ ['n', 't', 'r', 'f', 'u', '\r', '\n']))
  | ⟨_, .units _⟩ => isTrue trivial

/-! ### What the reader sees in a form -/

/-- The reader takes a text for a character. -/
inductive Writes (c : Char) : List Char → Prop
  | bare (hslash : c ≠ '\\') (hline : c ≠ '\r' ∧ c ≠ '\n') : Writes c [c]
  | escaped {x : Char} (hletter : ofLetter x = c) (hunit : x ≠ 'u') (hline : x ≠ '\r' ∧ x ≠ '\n') :
      Writes c ['\\', x]
  | unit (upper : List Bool) (h : c.toNat < 0x10000) : Writes c (unitText upper c.toNat)
  | pair (upper upper' : List Bool) (h : 0x10000 ≤ c.toNat) :
      Writes c (unitText upper (highUnit c) ++ unitText upper' (lowUnit c))

/-- **A character in one of its forms is taken for itself.** -/
theorem Piece.Legal.writes {p : Piece} (h : p.Legal) : Writes p.char p.text := by
  obtain ⟨c, form⟩ := p
  cases form with
  | bare =>
    simp only [Piece.Legal, List.mem_cons, List.not_mem_nil, or_false, not_or] at h
    exact .bare h.1 h.2
  | letter =>
    simp only [Piece.Legal, List.mem_cons, List.not_mem_nil, or_false] at h
    rcases h with rfl | rfl | rfl | rfl <;> exact .escaped rfl (by decide) (by decide)
  | slashed =>
    simp only [Piece.Legal, List.mem_cons, List.not_mem_nil, or_false, not_or] at h
    obtain ⟨hn, ht, hr, hf, hu, hline⟩ := h
    exact .escaped (by simp [ofLetter, hn, ht, hr, hf]) hu hline
  | units upper =>
    rw [Piece.text]
    split
    · rename_i hsmall
      exact .unit upper hsmall
    · rename_i hlarge
      exact .pair upper _ (by simpa using hlarge)

namespace Writes

variable {c : Char} {t : List Char}

/-- Only a bare character shows itself. -/
theorem head_eq (h : Writes c t) : t = [c] ∧ c ≠ '\\' ∨ ∃ r, t = '\\' :: r := by
  cases h with
  | bare hslash hline => exact Or.inl ⟨rfl, hslash⟩
  | escaped hletter hunit hline => exact Or.inr ⟨_, rfl⟩
  | unit upper h => exact Or.inr ⟨_, rfl⟩
  | pair upper upper' h => exact Or.inr ⟨_, rfl⟩

theorem ne_nil (h : Writes c t) : t ≠ [] := by
  rcases h.head_eq with ⟨rfl, -⟩ | ⟨r, rfl⟩ <;> exact List.cons_ne_nil _ _

/-- Unless it is written as it is, a character does not show at the beginning. -/
theorem dropWhile_isBlank_append (h : Writes c t) (hblank : t = [c] → isBlank c = false)
    (r : List Char) : (t ++ r).dropWhile isBlank = t ++ r := by
  rcases h.head_eq with ⟨rfl, -⟩ | ⟨s, rfl⟩
  · simp [hblank rfl]
  · rfl

theorem mem_unitText {upper : List Bool} {u : Nat} (h : c ∈ unitText upper u) :
    c ≠ '\r' ∧ c ≠ '\n' := by
  simp only [unitText, List.mem_cons] at h
  rcases h with rfl | rfl | h
  · decide
  · decide
  · have hplain := (unitDigits_plain h).2.1
    constructor <;> rintro rfl <;> exact hplain (by decide)

/-- A character is written within one line. -/
theorem not_mem_line (h : Writes c t) : ∀ x ∈ t, x ≠ '\r' ∧ x ≠ '\n' := by
  intro x hx
  cases h with
  | bare hslash hline => simpa [List.mem_singleton.mp hx] using hline
  | escaped hletter hunit hline =>
    simp only [List.mem_cons, List.not_mem_nil, or_false] at hx
    rcases hx with rfl | rfl
    · decide
    · exact hline
  | unit upper h => exact mem_unitText hx
  | pair upper upper' h => exact (List.mem_append.mp hx).elim mem_unitText mem_unitText

/-- A unit does not make a line continue, whatever stands before it. -/
theorem continues_append_unitText (l : List Char) (upper : List Bool) (u : Nat) :
    continues (l ++ unitText upper u) = false := by
  obtain ⟨s, d, hd, heq⟩ : ∃ s d, d ∈ unitDigits upper u ∧ unitText upper u = s ++ [d] :=
    ⟨'\\' :: 'u' :: (unitDigits upper u).dropLast, _,
      List.getLast_mem (List.cons_ne_nil _ _), rfl⟩
  have hslash : d ≠ '\\' := by
    rintro rfl
    exact (unitDigits_plain hd).2.1 (by decide)
  rw [heq, ← List.append_assoc, continues_append_singleton]
  simp [hslash]

/-- **Behind a line that does not continue, a character does not make it do so.** -/
theorem continues_append (h : Writes c t) {l : List Char} (hl : continues l = false) :
    continues (l ++ t) = false := by
  cases h with
  | bare hslash hline => simp [continues_append_singleton, hslash]
  | @escaped x hletter hunit hline =>
    have hpair : l ++ ['\\', x] = (l ++ ['\\']) ++ [x] := by simp
    rw [hpair, continues_append_singleton, continues_append_singleton, hl]
    simp
  | unit upper h => exact continues_append_unitText l upper _
  | pair upper upper' h =>
    rw [← List.append_assoc]
    exact continues_append_unitText _ upper' _

theorem splitKey_unitText (upper : List Bool) (u : Nat) (r : List Char) :
    splitKey (unitText upper u ++ r) = (unitText upper u ++ (splitKey r).1, (splitKey r).2) := by
  have hdigit : ∀ d ∈ unitDigits upper u, d ≠ '\\' ∧ isSeparator d = false := by
    intro d hd
    obtain ⟨-, hplain, hsep⟩ := unitDigits_plain hd
    exact ⟨fun h => hplain (by simp [h]), hsep⟩
  have hdigits : ∀ ds : List Char, (∀ d ∈ ds, d ≠ '\\' ∧ isSeparator d = false) →
      splitKey (ds ++ r) = (ds ++ (splitKey r).1, (splitKey r).2) := by
    intro ds hds
    induction ds with
    | nil => rfl
    | cons d ds ih =>
      obtain ⟨hd, hds⟩ := List.forall_mem_cons.mp hds
      rw [List.cons_append, splitKey_plain hd.1 hd.2, ih hds]
      rfl
  rw [unitText, List.cons_append, List.cons_append, splitKey_escaped, hdigits _ hdigit]
  rfl

/-- **A character does not end a key**, unless it is a separator that is written as it is. -/
theorem splitKey_append (h : Writes c t) (hsep : t = [c] → isSeparator c = false)
    (r : List Char) : splitKey (t ++ r) = (t ++ (splitKey r).1, (splitKey r).2) := by
  cases h with
  | bare hslash hline => exact splitKey_plain hslash (hsep rfl) r
  | escaped hletter hunit hline => exact splitKey_escaped _ r
  | unit upper h => exact splitKey_unitText upper _ r
  | pair upper upper' h => rw [List.append_assoc, splitKey_unitText, splitKey_unitText,
      List.append_assoc]

theorem isHigh_iff {u : Nat} : isHigh u = true ↔ 0xD800 ≤ u ∧ u < 0xDC00 := by simp [isHigh]

theorem isLow_iff {u : Nat} : isLow u = true ↔ 0xDC00 ≤ u ∧ u < 0xE000 := by simp [isLow]

/-- No character is one unit of a pair. -/
theorem ofUnit_toNat (h : c.toNat < 0x10000) : isHigh c.toNat = false ∧ ofUnit c.toNat = c := by
  have hvalid : c.toNat < 0xD800 ∨ 0xDFFF < c.toNat := by
    rcases c.valid with hlow | hhigh
    · exact Or.inl hlow
    · exact Or.inr hhigh.1
  have hhigh : isHigh c.toNat = false := by
    rw [Bool.eq_false_iff, ne_eq, isHigh_iff]
    omega
  have hlow : isLow c.toNat = false := by
    rw [Bool.eq_false_iff, ne_eq, isLow_iff]
    omega
  exact ⟨hhigh, by simp [ofUnit, hhigh, hlow, Char.ofNat_toNat]⟩

/-- The units of a character with two of them are a pair, and that of the character. -/
theorem ofPair_units (h : 0x10000 ≤ c.toNat) : isHigh (highUnit c) = true ∧
    isLow (lowUnit c) = true ∧ highUnit c < 0x10000 ∧ lowUnit c < 0x10000 ∧
      ofPair (highUnit c) (lowUnit c) = c := by
  have hvalid : c.toNat < 0x110000 := by
    rcases c.valid with hlow | hhigh
    · exact Nat.lt_trans hlow (by decide)
    · exact hhigh.2
  have hhigh : 0xD800 ≤ highUnit c ∧ highUnit c < 0xDC00 := by
    rw [highUnit]
    omega
  have hlow : 0xDC00 ≤ lowUnit c ∧ lowUnit c < 0xE000 := by
    rw [lowUnit]
    omega
  have hnumber : 0x10000 + (highUnit c - 0xD800) * 0x400 + (lowUnit c - 0xDC00) = c.toNat := by
    rw [highUnit, lowUnit]
    omega
  exact ⟨isHigh_iff.mpr hhigh, isLow_iff.mpr hlow, by omega, by omega,
    by rw [ofPair, hnumber, Char.ofNat_toNat]⟩

/-- **A character that is written stands for itself.** -/
theorem unescapeFrom_append (h : Writes c t) (fuel : Nat) (r : List Char) :
    unescapeFrom (fuel + 1) (t ++ r) = (unescapeFrom fuel r).map (c :: ·) := by
  cases h with
  | bare hslash hline => exact unescapeFrom_plain hslash fuel r
  | escaped hletter hunit hline =>
    rw [← hletter]
    exact unescapeFrom_escaped hunit fuel r
  | unit upper h =>
    obtain ⟨hhigh, hself⟩ := ofUnit_toNat h
    rw [unescapeFrom_unit h hhigh, hself]
  | pair upper upper' h =>
    obtain ⟨hhigh, hlow, hu, hv, hself⟩ := ofPair_units h
    rw [List.append_assoc, unescapeFrom_pair hu hv hhigh hlow, hself]

end Writes

end Properties

end LiveConfig
