import LiveConfig.Proofs.CharacterForms

/-!
# Layouts of a properties document

A document can be laid out in many ways: with blank lines and comments, with either line end, with
an equals sign, a colon or blanks behind a key, with each character in any of its forms, and with
keys and values continued on the next line wherever one character ends and another begins. `Layout`
says how a document is laid out, and `Layout.properties` what it says.

There is one thing that a layout cannot have. The blanks at the beginning of a line that continues
an entry are not part of it, and where they end nothing tells. So a blank that belongs to the value
cannot be the first character on such a line, unless it is escaped (`Layout.Snug`).

Once its lines are joined, an entry is what is left of its layout without the places where it goes
on; it is split where the key ends, and the characters are taken for what they are.

## Main definitions

* `Properties.Layout`, `Properties.Line`, `Properties.Item` — a document, its lines, and the parts
  of a key or value
* `Properties.Layout.Legal` — everything is where it can be
* `Properties.Layout.Snug` — no value goes on with a bare blank
* `Properties.joined` — a key or value once its lines are joined

## Main results

* `Properties.LegalValue.skipSeparator_text` — the separator is all that is skipped before a value
* `Properties.readEntry_joined` — an entry says what its key and value say
-/

namespace LiveConfig

namespace Properties

/-! ### Layouts -/

/-- What holds of all characters of a row is decided along the row. There may be an instance that
tries all characters there are, and it must not be the one that is found. -/
instance decidableForallCharMem (p : Char → Prop) [DecidablePred p] (l : List Char) :
    Decidable (∀ c ∈ l, p c) := List.decidableBAll p l

/-- How a line ends. -/
inductive Ending where
  | feed
  | returnFeed
  deriving DecidableEq

/-- The end of a line as text. -/
def Ending.text : Ending → List Char
  | .feed => ['\n']
  | .returnFeed => ['\r', '\n']

/-- A part of a key or value: a character, or the place where it goes on in the next line. -/
inductive Item where
  | piece (p : Piece)
  | continuation (ending : Ending) (blanks : List Char)
  deriving DecidableEq

namespace Item

def text : Item → List Char
  | .piece p => p.text
  | .continuation ending blanks => '\\' :: (ending.text ++ blanks)

/-- The character of an item, if it is one. -/
def piece? : Item → Option Piece
  | .piece p => some p
  | .continuation _ _ => none

def isPiece : Item → Bool
  | .piece _ => true
  | .continuation _ _ => false

/-- Whether an item is a blank that is not escaped. -/
def isBareBlank : Item → Bool
  | .piece p => p.form == .bare && isBlank p.char
  | .continuation _ _ => false

def Legal : Item → Prop
  | .piece p => p.Legal
  | .continuation _ blanks => ∀ c ∈ blanks, isBlank c = true

instance : DecidablePred Legal
  | .piece p => inferInstanceAs (Decidable p.Legal)
  | .continuation _ blanks => inferInstanceAs (Decidable (∀ c ∈ blanks, isBlank c = true))

end Item

/-- The characters of a key or value. -/
def pieces (items : List Item) : List Piece := items.filterMap Item.piece?

@[simp] theorem pieces_piece (p : Piece) (items : List Item) :
    pieces (.piece p :: items) = p :: pieces items := rfl

@[simp] theorem pieces_continuation (ending : Ending) (blanks : List Char) (items : List Item) :
    pieces (.continuation ending blanks :: items) = pieces items := rfl

/-- What a key or value says. -/
def meaning (items : List Item) : String := String.ofList ((pieces items).map Piece.char)

/-- A key or value as it is laid out. -/
def laidOut (items : List Item) : List Char := items.flatMap Item.text

/-- A key or value as it is once its lines are joined. -/
def joined (items : List Item) : List Char := (pieces items).flatMap Piece.text

/-- What stands between a key and its value. -/
inductive Separator where
  | marked (before : List Char) (mark : Char) (after : List Char)
  | blank (blanks : List Char)
  deriving DecidableEq

namespace Separator

def text : Separator → List Char
  | .marked before mark after => before ++ mark :: after
  | .blank blanks => blanks

/-- Whether the separator has neither an equals sign nor a colon. -/
def isUnmarked : Separator → Bool
  | .marked .. => false
  | .blank _ => true

def Legal : Separator → Prop
  | .marked before mark after =>
    (∀ c ∈ before, isBlank c = true) ∧ mark ∈ ['=', ':'] ∧ ∀ c ∈ after, isBlank c = true
  | .blank blanks => blanks ≠ [] ∧ ∀ c ∈ blanks, isBlank c = true

instance : DecidablePred Legal
  | .marked before mark after => inferInstanceAs (Decidable
      ((∀ c ∈ before, isBlank c = true) ∧ mark ∈ ['=', ':'] ∧ ∀ c ∈ after, isBlank c = true))
  | .blank blanks =>
    inferInstanceAs (Decidable (blanks ≠ [] ∧ ∀ c ∈ blanks, isBlank c = true))

end Separator

/-- A key can be laid out so: it has a character, and it begins and ends with one; none that is
written as it is ends the key or begins a comment. -/
structure LegalKey (key : List Item) : Prop where
  items : ∀ i ∈ key, i.Legal
  begins : key.head?.any Item.isPiece = true
  ends : key.getLast?.any Item.isPiece = true
  bare : ∀ p ∈ pieces key, p.form = .bare → isSeparator p.char = false
  first : ∀ p ∈ (pieces key).head?, p.form = .bare → p.char ∉ ['#', '!']

/-- A value can be laid out so behind a separator: its first character does not look like a part of
that. -/
structure LegalValue (separator : Separator) (value : List Item) : Prop where
  items : ∀ i ∈ value, i.Legal
  first : ∀ p ∈ (pieces value).head?, p.form = .bare →
    isBlank p.char = false ∧ (separator.isUnmarked = true → p.char ∉ ['=', ':'])

instance (key : List Item) : Decidable (LegalKey key) :=
  decidable_of_iff ((∀ i ∈ key, i.Legal) ∧ key.head?.any Item.isPiece = true ∧
      key.getLast?.any Item.isPiece = true ∧
      (∀ p ∈ pieces key, p.form = .bare → isSeparator p.char = false) ∧
      ∀ p ∈ (pieces key).head?, p.form = .bare → p.char ∉ ['#', '!'])
    ⟨fun ⟨h₁, h₂, h₃, h₄, h₅⟩ => ⟨h₁, h₂, h₃, h₄, h₅⟩,
      fun ⟨h₁, h₂, h₃, h₄, h₅⟩ => ⟨h₁, h₂, h₃, h₄, h₅⟩⟩

instance (separator : Separator) (value : List Item) : Decidable (LegalValue separator value) :=
  decidable_of_iff ((∀ i ∈ value, i.Legal) ∧ ∀ p ∈ (pieces value).head?, p.form = .bare →
      isBlank p.char = false ∧ (separator.isUnmarked = true → p.char ∉ ['=', ':']))
    ⟨fun ⟨h₁, h₂⟩ => ⟨h₁, h₂⟩, fun ⟨h₁, h₂⟩ => ⟨h₁, h₂⟩⟩

/-- Whether no bare blank comes first on a line. The first argument tells whether there is nothing
yet on the present line but blanks. -/
def isSnug : Bool → List Item → Bool
  | _, [] => true
  | fresh, i :: r => !(fresh && i.isBareBlank) && isSnug (!i.isPiece) r

/-- A line of a document; that of an entry may be several. -/
inductive Line where
  | blank (blanks : List Char)
  | comment (blanks : List Char) (mark : Char) (text : List Char)
  | entry (indent : List Char) (key : List Item) (separator : Separator) (value : List Item)
  deriving DecidableEq

namespace Line

/-- A line as text, without its end. -/
def text : Line → List Char
  | .blank blanks => blanks
  | .comment blanks mark text => blanks ++ mark :: text
  | .entry indent key separator value =>
    indent ++ (laidOut key ++ (separator.text ++ laidOut value))

/-- The property of a line. -/
def property? : Line → Option (String × String)
  | .entry _ key _ value => some (meaning key, meaning value)
  | _ => none

/-- The entry of a line, with its lines joined. -/
def entry? : Line → Option (List Char)
  | .entry _ key separator value => some (joined key ++ (separator.text ++ joined value))
  | _ => none

def Legal : Line → Prop
  | .blank blanks => ∀ c ∈ blanks, isBlank c = true
  | .comment blanks mark text => (∀ c ∈ blanks, isBlank c = true) ∧ mark ∈ ['#', '!'] ∧
      ∀ c ∈ text, c ≠ '\r' ∧ c ≠ '\n'
  | .entry indent key separator value => (∀ c ∈ indent, isBlank c = true) ∧ LegalKey key ∧
      separator.Legal ∧ LegalValue separator value

/-- The value of the line does not go on with a bare blank. -/
def Snug : Line → Prop
  | .entry _ _ _ value => isSnug false value = true
  | _ => True

instance : DecidablePred Legal
  | .blank blanks => inferInstanceAs (Decidable (∀ c ∈ blanks, isBlank c = true))
  | .comment blanks mark text => inferInstanceAs (Decidable ((∀ c ∈ blanks, isBlank c = true) ∧
      mark ∈ ['#', '!'] ∧ ∀ c ∈ text, c ≠ '\r' ∧ c ≠ '\n'))
  | .entry indent key separator value => inferInstanceAs (Decidable
      ((∀ c ∈ indent, isBlank c = true) ∧ LegalKey key ∧ separator.Legal ∧
        LegalValue separator value))

instance : DecidablePred Snug
  | .blank _ => isTrue trivial
  | .comment .. => isTrue trivial
  | .entry _ _ _ value => inferInstanceAs (Decidable (isSnug false value = true))

end Line

/-- A document as it is laid out: lines with their ends, and perhaps a last one without. -/
structure Layout where
  lines : List (Line × Ending)
  last : Option Line
  deriving DecidableEq

namespace Layout

/-- All lines of a layout. -/
def allLines (d : Layout) : List Line := d.lines.map Prod.fst ++ d.last.toList

def text (d : Layout) : List Char :=
  d.lines.flatMap (fun l => l.1.text ++ l.2.text) ++ (d.last.map Line.text).getD []

/-- The properties that a layout says, in its order. -/
def properties (d : Layout) : List (String × String) := d.allLines.filterMap Line.property?

/-- Everything in a layout is where it can be. -/
def Legal (d : Layout) : Prop := ∀ l ∈ d.allLines, l.Legal

/-- No value in a layout goes on with a bare blank. -/
def Snug (d : Layout) : Prop := ∀ l ∈ d.allLines, l.Snug

instance (d : Layout) : Decidable d.Legal := inferInstanceAs (Decidable (∀ l ∈ d.allLines, l.Legal))

instance (d : Layout) : Decidable d.Snug := inferInstanceAs (Decidable (∀ l ∈ d.allLines, l.Snug))

end Layout

/-! ### Characters in a row -/

section Pieces

variable {ps : List Piece}

theorem unescapeFrom_flatMap (h : ∀ p ∈ ps, p.Legal) {fuel : Nat}
    (hfuel : (ps.flatMap Piece.text).length ≤ fuel) :
    unescapeFrom fuel (ps.flatMap Piece.text) = .ok (ps.map Piece.char) := by
  induction ps generalizing fuel with
  | nil => cases fuel <;> rfl
  | cons p ps ih =>
    obtain ⟨hp, hps⟩ := List.forall_mem_cons.mp h
    have hne := List.length_pos_iff.mpr hp.writes.ne_nil
    rw [List.flatMap_cons, List.length_append] at hfuel
    obtain ⟨n, rfl⟩ : ∃ n, fuel = n + 1 := ⟨fuel - 1, by omega⟩
    rw [List.flatMap_cons, hp.writes.unescapeFrom_append, ih hps (by omega)]
    rfl

theorem text_eq_singleton {p : Piece} (h : p.text = [p.char]) : p.form = .bare := by
  obtain ⟨c, form⟩ := p
  cases form with
  | bare => rfl
  | letter => simp [Piece.text] at h
  | slashed => simp [Piece.text] at h
  | units upper =>
    rw [Piece.text] at h
    split at h <;> simp [unitText] at h

theorem splitKey_flatMap (h : ∀ p ∈ ps, p.Legal)
    (hbare : ∀ p ∈ ps, p.form = .bare → isSeparator p.char = false) (r : List Char) :
    splitKey (ps.flatMap Piece.text ++ r) =
      (ps.flatMap Piece.text ++ (splitKey r).1, (splitKey r).2) := by
  induction ps with
  | nil => rfl
  | cons p ps ih =>
    obtain ⟨hp, hps⟩ := List.forall_mem_cons.mp h
    obtain ⟨hsep, hbare⟩ := List.forall_mem_cons.mp hbare
    rw [List.flatMap_cons, List.append_assoc,
      hp.writes.splitKey_append fun ht => hsep (text_eq_singleton ht), ih hps hbare,
      List.append_assoc]

end Pieces

theorem pieces_legal {items : List Item} (h : ∀ i ∈ items, i.Legal) :
    ∀ p ∈ pieces items, p.Legal := by
  intro p hp
  obtain ⟨i, hi, hpiece⟩ := List.mem_filterMap.mp hp
  cases i with
  | piece q =>
    cases hpiece
    exact h _ hi
  | continuation ending blanks => cases hpiece

theorem unescape_joined {items : List Item} (h : ∀ i ∈ items, i.Legal) :
    unescape (joined items) = .ok ((pieces items).map Piece.char) :=
  unescapeFrom_flatMap (pieces_legal h) (Nat.le_refl _)

/-! ### An entry whose lines are joined -/

theorem isSeparator_of_isBlank {c : Char} (h : isBlank c = true) : isSeparator c = true := by
  simp [isSeparator, h]

/-- A separator ends the key before it. -/
theorem Separator.Legal.splitKey_text {s : Separator} (h : s.Legal) (r : List Char) :
    splitKey (s.text ++ r) = ([], s.text ++ r) := by
  have hend : ∀ {c : Char} (r : List Char), isSeparator c = true →
      splitKey (c :: r) = ([], c :: r) := by
    intro c r hc
    rw [splitKey]
    · simp [hc]
    · rintro rfl
      cases hc
    · rintro x s rfl
      cases hc
  cases s with
  | marked before mark after =>
    obtain ⟨hbefore, hmark, -⟩ := h
    cases before with
    | nil =>
      simp only [List.mem_cons, List.not_mem_nil, or_false] at hmark
      rcases hmark with rfl | rfl <;> exact hend _ rfl
    | cons c before => exact hend _ (isSeparator_of_isBlank (hbefore c List.mem_cons_self))
  | blank blanks =>
    obtain ⟨hne, hblanks⟩ := h
    cases blanks with
    | nil => exact absurd rfl hne
    | cons c blanks => exact hend _ (isSeparator_of_isBlank (hblanks c List.mem_cons_self))

theorem dropWhile_blanks {blanks : List Char} (h : ∀ c ∈ blanks, isBlank c = true) (r : List Char) :
    (blanks ++ r).dropWhile isBlank = r.dropWhile isBlank :=
  List.dropWhile_append_of_pos h

/-- What comes first in a value is no blank. -/
theorem LegalValue.dropWhile_isBlank {s : Separator} {value : List Item} (h : LegalValue s value) :
    (joined value).dropWhile isBlank = joined value := by
  have hlegal := pieces_legal h.items
  have hfirst := h.first
  rw [joined]
  cases hvalue : pieces value with
  | nil => rfl
  | cons p ps =>
    rw [hvalue] at hlegal hfirst
    have hp : p.Legal := hlegal p List.mem_cons_self
    exact hp.writes.dropWhile_isBlank_append (fun ht => (hfirst p rfl (text_eq_singleton ht)).1) _

/-- The separator is all that is skipped before a value. -/
theorem LegalValue.skipSeparator_text {s : Separator} {value : List Item} (h : LegalValue s value)
    (hs : s.Legal) : skipSeparator (s.text ++ joined value) = joined value := by
  cases s with
  | marked before mark after =>
    obtain ⟨hbefore, hmark, hafter⟩ := hs
    have htext : (Separator.marked before mark after).text ++ joined value =
        before ++ mark :: (after ++ joined value) := by
      simp [Separator.text]
    simp only [List.mem_cons, List.not_mem_nil, or_false] at hmark
    rw [htext, skipSeparator, dropWhile_blanks hbefore]
    rcases hmark with rfl | rfl <;>
      exact (dropWhile_blanks hafter _).trans h.dropWhile_isBlank
  | blank blanks =>
    rw [Separator.text, skipSeparator, dropWhile_blanks hs.2, h.dropWhile_isBlank]
    -- neither an equals sign nor a colon comes first
    have hlegal := pieces_legal h.items
    have hfirst := h.first
    rw [joined]
    cases hvalue : pieces value with
    | nil => rfl
    | cons p ps =>
      rw [hvalue] at hlegal hfirst
      have hp : p.Legal := hlegal p List.mem_cons_self
      rw [List.flatMap_cons]
      rcases hp.writes.head_eq with ⟨ht, -⟩ | ⟨r, ht⟩
      · have hmark := (hfirst p rfl (text_eq_singleton ht)).2 rfl
        simp only [List.mem_cons, List.not_mem_nil, or_false, not_or] at hmark
        rw [ht, List.singleton_append]
        split
        · rename_i heq
          exact absurd (List.cons.inj heq).1 hmark.1
        · rename_i heq
          exact absurd (List.cons.inj heq).1 hmark.2
        · rfl
      · rw [ht]
        rfl

theorem LegalKey.pieces_ne_nil {key : List Item} (h : LegalKey key) : pieces key ≠ [] := by
  have hbegins := h.begins
  cases key with
  | nil => cases hbegins
  | cons i key =>
    cases i with
    | piece p => exact List.cons_ne_nil _ _
    | continuation ending blanks => cases hbegins

/-- **An entry says what its key and value say.** -/
theorem readEntry_joined {key value : List Item} {s : Separator} (hkey : LegalKey key)
    (hs : s.Legal) (hvalue : LegalValue s value) :
    readEntry (joined key ++ (s.text ++ joined value)) =
      .ok (some (meaning key, meaning value)) := by
  have hsplit : splitEntry (joined key ++ (s.text ++ joined value)) =
      (joined key, joined value) := by
    have hkeySplit := splitKey_flatMap (pieces_legal hkey.items) hkey.bare (s.text ++ joined value)
    rw [hs.splitKey_text, List.append_nil] at hkeySplit
    rw [splitEntry, joined, hkeySplit]
    exact congrArg (Prod.mk _) (hvalue.skipSeparator_text hs)
  have hne : ((pieces key).map Piece.char).isEmpty = false := by
    simp [hkey.pieces_ne_nil]
  rw [readEntry, hsplit]
  simp only [bind, Except.bind, unescape_joined hkey.items, unescape_joined hvalue.items, hne]
  rfl

end Properties

end LiveConfig
