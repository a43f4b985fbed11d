import LiveConfig.Proofs.Layouts

/-!
# Layouts read

The reader goes through the text of a document line by line. Within an entry, what it has of the
entry has grown by what a piece of the layout adds to it when that piece has been read: a character
adds its text, and a place where a key or value goes on in the next line adds nothing
(`Properties.Within`). At the end of the line the entry is complete.

So the reader finds the properties of every layout in which no value goes on with a bare blank; such
a blank is lost.

## Main definitions

* `Properties.Within` — the reader is within an entry, of which it has so much

## Main results

* `Properties.Within.items` — what is laid out of a key or value is added to the entry
* `Properties.Line.joinLines_text` — a line is read as its entry, or as none
* `Properties.Layout.read_text` — the reader finds the properties of every legal layout
* `Properties.Layout.blank_lost` — a value that goes on with a bare blank loses it
-/

namespace LiveConfig

namespace Properties

/-! ### Joining lines -/

/-- What the reader has of a line, without the blanks at the beginning of it. -/
def lineOf (acc : List Char) : List Char := acc.reverse.dropWhile isBlank

theorem lineOf_append {acc t : List Char} (h : lineOf acc ≠ [] ∨ t.dropWhile isBlank = t) :
    lineOf (t.reverse ++ acc) = lineOf acc ++ t := by
  rw [lineOf, List.reverse_append, List.reverse_reverse, List.dropWhile_append]
  split
  · rename_i hempty
    have hnil : lineOf acc = [] := List.isEmpty_iff.mp hempty
    rw [hnil, h.resolve_left fun hne => hne hnil]
    rfl
  · rfl

theorem lineOf_blanks {blanks : List Char} (h : ∀ c ∈ blanks, isBlank c = true) :
    lineOf blanks.reverse = [] := by
  rw [lineOf, List.reverse_reverse]
  simpa using dropWhile_blanks h []

theorem isBlank_not_mem_line {blanks : List Char} (h : ∀ c ∈ blanks, isBlank c = true) :
    ∀ c ∈ blanks, c ≠ '\r' ∧ c ≠ '\n' := by
  intro c hc
  have hblank := h c hc
  constructor <;> rintro rfl <;> cases hblank

theorem linesFrom_ending (ending : Ending) (acc r : List Char) :
    linesFrom acc (ending.text ++ r) = acc.reverse :: linesFrom [] r := by
  cases ending <;> simp [Ending.text, linesFrom]

theorem isIdle_append {l : List Char} (h : isIdle l = false) (t : List Char) :
    isIdle (l ++ t) = false := by
  cases l with
  | nil => cases h
  | cons c l => exact h

/-- The reader is within an entry, of which it has so much: lines joined already, if there are any,
and what it has of the present line. -/
structure Within (begun : Option (List Char)) (acc entry : List Char) : Prop where
  entry_eq : begun.getD [] ++ lineOf acc = entry
  ends : continues (lineOf acc) = false
  busy : begun = none → isIdle (lineOf acc) = false

namespace Within

variable {begun : Option (List Char)} {acc entry : List Char}

/-- What does not make the line continue is added to the entry. -/
theorem append (h : Within begun acc entry) {t : List Char}
    (ht : continues (lineOf acc ++ t) = false)
    (hplace : lineOf acc ≠ [] ∨ t.dropWhile isBlank = t) :
    Within begun (t.reverse ++ acc) (entry ++ t) where
  entry_eq := by rw [lineOf_append hplace, ← List.append_assoc, h.entry_eq]
  ends := by rw [lineOf_append hplace, ht]
  busy := fun hbegun => by
    rw [lineOf_append hplace]
    exact isIdle_append (h.busy hbegun) t

/-- The entry ends with the line. -/
theorem close (h : Within begun acc entry) (ending : Ending) (r : List Char) :
    joinLines begun (linesFrom acc (ending.text ++ r)) =
      entry :: joinLines none (linesFrom [] r) := by
  have hends : continues (acc.reverse.dropWhile isBlank) = false := h.ends
  have hentry := h.entry_eq
  rw [linesFrom_ending]
  cases begun with
  | none =>
    have hbusy : isIdle (acc.reverse.dropWhile isBlank) = false := h.busy rfl
    simp only [joinLines, hbusy, hends, Bool.false_eq_true, if_false]
    rw [← hentry]
    rfl
  | some l =>
    simp only [joinLines, hends, Bool.false_eq_true, if_false]
    rw [← hentry]
    rfl

/-- The entry ends with the text. -/
theorem finish (h : Within begun acc entry) : joinLines begun (linesFrom acc []) = [entry] := by
  cases hacc : acc.isEmpty with
  | false =>
    have hlines : linesFrom acc [] = linesFrom acc (Ending.feed.text ++ []) := by
      rw [linesFrom_ending, linesFrom, hacc]
      rfl
    rw [hlines, h.close]
    rfl
  | true =>
    obtain rfl := List.isEmpty_iff.mp hacc
    cases begun with
    | none => exact absurd (h.busy rfl) (by decide)
    | some l =>
      rw [← h.entry_eq]
      simp [linesFrom, joinLines, lineOf]

/-- A line that ends in a backslash goes on in the next one. -/
theorem turn (h : Within begun acc entry) (ending : Ending) (r : List Char) :
    joinLines begun (linesFrom acc ('\\' :: (ending.text ++ r))) =
      joinLines (some entry) (linesFrom [] r) := by
  have hline : ('\\' :: acc).reverse.dropWhile isBlank = lineOf acc ++ ['\\'] :=
    lineOf_append (t := ['\\']) (Or.inr rfl)
  have hcontinues : continues (lineOf acc ++ ['\\']) = true := by
    rw [continues_append_singleton, h.ends]
    rfl
  have hbreak : linesFrom acc ('\\' :: (ending.text ++ r)) =
      ('\\' :: acc).reverse :: linesFrom [] r := by
    rw [← linesFrom_ending ending]
    have hplain : ∀ c ∈ ['\\'], c ≠ '\r' ∧ c ≠ '\n' := by decide
    exact linesFrom_text hplain acc (ending.text ++ r)
  have hentry := h.entry_eq
  rw [hbreak]
  cases begun with
  | none =>
    have hbusy : isIdle (lineOf acc ++ ['\\']) = false := isIdle_append (h.busy rfl) _
    simp only [joinLines, hline, hbusy, hcontinues, Bool.false_eq_true, if_false, if_true,
      List.dropLast_concat]
    rw [← hentry]
    rfl
  | some l =>
    simp only [joinLines, hline, hcontinues, if_true, List.dropLast_concat]
    rw [← hentry]
    rfl

/-- Blanks at the beginning of a line are not added to the entry. -/
theorem turned {blanks : List Char} (h : ∀ c ∈ blanks, isBlank c = true) (entry : List Char) :
    Within (some entry) blanks.reverse entry where
  entry_eq := by rw [lineOf_blanks h, Option.getD_some, List.append_nil]
  ends := by rw [lineOf_blanks h]; rfl
  busy := nofun

/-- Whether there is nothing on the line but blanks when items have been read. -/
def freshAfter (fresh : Bool) (items : List Item) : Bool :=
  items.foldl (fun _ i => !i.isPiece) fresh

theorem freshAfter_of_piece {items : List Item} (h : items.getLast?.any Item.isPiece = true)
    (fresh : Bool) : freshAfter fresh items = false := by
  rw [Option.any_eq_true] at h
  obtain ⟨i, hlast, hi⟩ := h
  obtain ⟨init, rfl⟩ := List.getLast?_eq_some_iff.mp hlast
  simp [freshAfter, hi]

/-- **What is laid out of a key or value is added to the entry**, with the lines joined. -/
theorem items {items : List Item} (hlegal : ∀ i ∈ items, i.Legal) {fresh : Bool}
    (hsnug : isSnug fresh items = true) (h : Within begun acc entry)
    (hfresh : lineOf acc = [] → fresh = true) :
    ∃ begun' acc', Within begun' acc' (entry ++ joined items) ∧
      (lineOf acc' = [] → freshAfter fresh items = true) ∧
      ∀ r, joinLines begun (linesFrom acc (laidOut items ++ r)) =
        joinLines begun' (linesFrom acc' r) := by
  induction items generalizing begun acc entry fresh with
  | nil =>
    refine ⟨begun, acc, ?_, hfresh, fun r => rfl⟩
    simpa [joined, pieces] using h
  | cons i items ih =>
    obtain ⟨hi, hrest⟩ := List.forall_mem_cons.mp hlegal
    rw [isSnug, Bool.and_eq_true, Bool.not_eq_true'] at hsnug
    obtain ⟨hfirst, hsnug⟩ := hsnug
    cases i with
    | piece p =>
      have hp : p.Legal := hi
      -- a bare blank is not the first one on its line
      have hplace : lineOf acc ≠ [] ∨ p.text.dropWhile isBlank = p.text := by
        by_cases hline : lineOf acc = []
        · have hshown : p.text = [p.char] → isBlank p.char = false := by
            intro ht
            simpa [hfresh hline, Item.isBareBlank, text_eq_singleton ht] using hfirst
          exact Or.inr (by simpa using hp.writes.dropWhile_isBlank_append hshown [])
        · exact Or.inl hline
      have hpiece := h.append (hp.writes.continues_append h.ends) hplace
      have hline : lineOf (p.text.reverse ++ acc) = [] → false = true := by
        intro hnil
        rw [lineOf_append hplace] at hnil
        exact absurd (List.append_eq_nil_iff.mp hnil).2 hp.writes.ne_nil
      obtain ⟨begun', acc', hwithin, hfresh', hjoin⟩ := ih hrest hsnug hpiece hline
      refine ⟨begun', acc', ?_, hfresh', fun r => ?_⟩
      · simpa [joined] using hwithin
      · rw [← hjoin, ← linesFrom_text hp.writes.not_mem_line, ← List.append_assoc]
        rfl
    | continuation ending blanks =>
      have hblanks : ∀ c ∈ blanks, isBlank c = true := hi
      obtain ⟨begun', acc', hwithin, hfresh', hjoin⟩ :=
        ih hrest hsnug (turned hblanks entry) fun _ => rfl
      refine ⟨begun', acc', ?_, hfresh', fun r => ?_⟩
      · simpa [joined] using hwithin
      · have htext : laidOut (.continuation ending blanks :: items) ++ r =
            '\\' :: (ending.text ++ (blanks ++ (laidOut items ++ r))) := by
          simp [laidOut, Item.text]
        rw [htext, h.turn, linesFrom_text (isBlank_not_mem_line hblanks), List.append_nil, hjoin]

end Within

/-- A key, of which no bare character is a separator, has no bare blank. -/
theorem isSnug_of_bare {items : List Item}
    (h : ∀ p ∈ pieces items, p.form = .bare → isSeparator p.char = false) (fresh : Bool) :
    isSnug fresh items = true := by
  induction items generalizing fresh with
  | nil => rfl
  | cons i items ih =>
    cases i with
    | piece p =>
      obtain ⟨hp, hrest⟩ := List.forall_mem_cons.mp h
      have hblank : (Item.piece p).isBareBlank = false := by
        refine Bool.eq_false_iff.mpr fun hblank => ?_
        rw [Item.isBareBlank, Bool.and_eq_true, beq_iff_eq] at hblank
        have hsep := isSeparator_of_isBlank hblank.2
        rw [hp hblank.1] at hsep
        cases hsep
      rw [isSnug, hblank, Bool.and_false, ih hrest]
      rfl
    | continuation ending blanks =>
      rw [isSnug, ih h, Item.isBareBlank, Bool.and_false]
      rfl

/-! ### Lines -/

/-- A separator has neither a backslash nor a line break. -/
theorem Separator.Legal.not_mem {s : Separator} (h : s.Legal) :
    ∀ c ∈ s.text, c ≠ '\\' ∧ c ≠ '\r' ∧ c ≠ '\n' := by
  have hblank : ∀ c, isBlank c = true → c ≠ '\\' ∧ c ≠ '\r' ∧ c ≠ '\n' := by
    intro c hc
    refine ⟨?_, ?_, ?_⟩ <;> rintro rfl <;> cases hc
  intro c hc
  cases s with
  | marked before mark after =>
    obtain ⟨hbefore, hmark, hafter⟩ := h
    rcases List.mem_append.mp hc with hc | hc
    · exact hblank c (hbefore c hc)
    rcases List.mem_cons.mp hc with rfl | hc
    · simp only [List.mem_cons, List.not_mem_nil, or_false] at hmark
      rcases hmark with rfl | rfl <;> decide
    · exact hblank c (hafter c hc)
  | blank blanks => exact hblank c (h.2 c hc)

theorem Separator.Legal.text_ne_nil {s : Separator} (h : s.Legal) : s.text ≠ [] := by
  cases s with
  | marked before mark after => simp [Separator.text]
  | blank blanks => exact h.1

/-- A separator does not make a line continue, whatever stands before it. -/
theorem Separator.Legal.continues_append {s : Separator} (h : s.Legal) (l : List Char) :
    continues (l ++ s.text) = false := by
  rcases List.eq_nil_or_concat s.text with hnil | ⟨init, c, hc⟩
  · exact absurd hnil h.text_ne_nil
  · have hslash : c ≠ '\\' := (h.not_mem c (by simp [hc])).1
    rw [hc, List.concat_eq_append, ← List.append_assoc, continues_append_singleton]
    simp [hslash]

/-- The first character of a key begins an entry. -/
theorem LegalKey.within_first {p : Piece} {rest : List Item} (h : LegalKey (.piece p :: rest))
    {indent : List Char} (hindent : ∀ c ∈ indent, isBlank c = true) :
    Within none (p.text.reverse ++ indent.reverse) p.text := by
  have hp : p.Legal := h.items _ List.mem_cons_self
  have hshown : p.text.dropWhile isBlank = p.text := by
    have hblank : p.text = [p.char] → isBlank p.char = false := by
      intro ht
      have hsep := h.bare p List.mem_cons_self (text_eq_singleton ht)
      simp only [isSeparator, Bool.or_eq_false_iff] at hsep
      exact hsep.2
    simpa using hp.writes.dropWhile_isBlank_append hblank []
  have hline : lineOf (p.text.reverse ++ indent.reverse) = p.text := by
    rw [lineOf_append (Or.inr hshown), lineOf_blanks hindent, List.nil_append]
  have hidle : isIdle p.text = false := by
    rcases hp.writes.head_eq with ⟨ht, -⟩ | ⟨r, ht⟩
    · have hmark := h.first p rfl (text_eq_singleton ht)
      simp only [List.mem_cons, List.not_mem_nil, or_false, not_or] at hmark
      simp [ht, isIdle, hmark]
    · rw [ht]
      rfl
  exact ⟨by rw [hline]; rfl, by rw [hline]; exact hp.writes.continues_append (l := []) rfl,
    fun _ => by rw [hline]; exact hidle⟩

/-- **The reader is within an entry when it has read the text of it.** -/
theorem Within.entry {indent : List Char} {key value : List Item} {s : Separator}
    (hindent : ∀ c ∈ indent, isBlank c = true) (hkey : LegalKey key) (hs : s.Legal)
    (hvalue : LegalValue s value) (hsnug : isSnug false value = true) :
    ∃ begun acc, Within begun acc (joined key ++ (s.text ++ joined value)) ∧
      ∀ r, joinLines none (linesFrom [] ((Line.entry indent key s value).text ++ r)) =
        joinLines begun (linesFrom acc r) := by
  have hbegins := hkey.begins
  have hends := hkey.ends
  -- the first character of the key begins the entry
  obtain ⟨p, rest, rfl⟩ : ∃ p rest, key = .piece p :: rest := by
    cases key with
    | nil => cases hbegins
    | cons i rest =>
      cases i with
      | piece p => exact ⟨p, rest, rfl⟩
      | continuation ending blanks => cases hbegins
  obtain ⟨hp, hrest⟩ : p.Legal ∧ ∀ i ∈ rest, i.Legal := List.forall_mem_cons.mp hkey.items
  have hfirst := hkey.within_first hindent
  have hfresh : lineOf (p.text.reverse ++ indent.reverse) = [] → false = true := by
    intro hnil
    have hbusy := hfirst.busy rfl
    rw [hnil] at hbusy
    cases hbusy
  -- the rest of the key
  obtain ⟨begun₁, acc₁, hwithin₁, hfresh₁, hjoin₁⟩ :=
    hfirst.items hrest (isSnug_of_bare (List.forall_mem_cons.mp hkey.bare).2 false) hfresh
  have hafter : Within.freshAfter false rest = false := Within.freshAfter_of_piece hends true
  have hline₁ : lineOf acc₁ ≠ [] := by
    intro hnil
    rw [hafter] at hfresh₁
    cases hfresh₁ hnil
  -- the separator
  have hwithin₂ := hwithin₁.append (hs.continues_append _) (Or.inl hline₁)
  have hfresh₂ : lineOf (s.text.reverse ++ acc₁) = [] → false = true := by
    intro hnil
    rw [lineOf_append (Or.inl hline₁)] at hnil
    exact absurd (List.append_eq_nil_iff.mp hnil).1 hline₁
  -- the value
  obtain ⟨begun, acc, hwithin, -, hjoin⟩ := hwithin₂.items hvalue.items hsnug hfresh₂
  refine ⟨begun, acc, ?_, fun r => ?_⟩
  · simpa [joined] using hwithin
  · have htext : (Line.entry indent (.piece p :: rest) s value).text ++ r =
        indent ++ (p.text ++ (laidOut rest ++ (s.text ++ (laidOut value ++ r)))) := by
      simp [Line.text, laidOut, Item.text]
    rw [htext, linesFrom_text (isBlank_not_mem_line hindent), List.append_nil,
      linesFrom_text hp.writes.not_mem_line, hjoin₁,
      linesFrom_text fun c hc => (hs.not_mem c hc).2, hjoin]

/-- A line that holds no entry is left out. -/
theorem joinLines_idle {line : List Char} (h : isIdle (line.dropWhile isBlank) = true)
    (r : List (List Char)) : joinLines none (line :: r) = joinLines none r := by
  simp [joinLines, h]

/-- A text without a line break that holds no entry is left out. -/
theorem joinLines_linesFrom_idle {line : List Char} (hline : ∀ c ∈ line, c ≠ '\r' ∧ c ≠ '\n')
    (h : isIdle (line.dropWhile isBlank) = true) :
    (∀ (ending : Ending) (r : List Char),
        joinLines none (linesFrom [] (line ++ (ending.text ++ r))) =
          joinLines none (linesFrom [] r)) ∧
      joinLines none (linesFrom [] line) = [] := by
  constructor
  · intro ending r
    rw [linesFrom_text hline, linesFrom_ending, List.append_nil, List.reverse_reverse,
      joinLines_idle h]
  · rw [← List.append_nil line, linesFrom_text hline, linesFrom]
    split
    · rfl
    · rw [List.append_nil, List.reverse_reverse, joinLines_idle h]
      rfl

/-- **A line is read as its entry**, or as none. -/
theorem Line.joinLines_text {l : Line} (h : l.Legal) (hsnug : l.Snug) :
    (∀ (ending : Ending) (r : List Char),
        joinLines none (linesFrom [] (l.text ++ (ending.text ++ r))) =
          l.entry?.toList ++ joinLines none (linesFrom [] r)) ∧
      joinLines none (linesFrom [] l.text) = l.entry?.toList := by
  cases l with
  | blank blanks =>
    refine joinLines_linesFrom_idle (isBlank_not_mem_line h) ?_
    have hdrop := dropWhile_blanks h []
    rw [List.append_nil] at hdrop
    rw [Line.text, hdrop]
    rfl
  | comment blanks mark text =>
    obtain ⟨hblanks, hmark, htext⟩ := h
    simp only [List.mem_cons, List.not_mem_nil, or_false] at hmark
    refine joinLines_linesFrom_idle ?_ ?_
    · intro c hc
      rcases List.mem_append.mp hc with hc | hc
      · exact isBlank_not_mem_line hblanks c hc
      rcases List.mem_cons.mp hc with rfl | hc
      · rcases hmark with rfl | rfl <;> decide
      · exact htext c hc
    · rw [Line.text, dropWhile_blanks hblanks]
      rcases hmark with rfl | rfl <;> rfl
  | entry indent key separator value =>
    obtain ⟨hindent, hkey, hs, hvalue⟩ := h
    obtain ⟨begun, acc, hwithin, hjoin⟩ := Within.entry hindent hkey hs hvalue hsnug
    constructor
    · intro ending r
      rw [hjoin, hwithin.close]
      rfl
    · rw [← List.append_nil (Line.text _), hjoin, hwithin.finish]
      rfl

/-! ### Documents -/

theorem readEntries_filterMap {ls : List Line} (h : ∀ l ∈ ls, l.Legal) :
    readEntries (ls.filterMap Line.entry?) = .ok (ls.filterMap Line.property?) := by
  induction ls with
  | nil => rfl
  | cons l ls ih =>
    obtain ⟨hl, hls⟩ := List.forall_mem_cons.mp h
    cases l with
    | blank blanks => exact ih hls
    | comment blanks mark text => exact ih hls
    | entry indent key separator value =>
      obtain ⟨-, hkey, hs, hvalue⟩ := hl
      have hread : readEntries ((joined key ++ (separator.text ++ joined value)) ::
          ls.filterMap Line.entry?) =
            .ok ((meaning key, meaning value) :: ls.filterMap Line.property?) := by
        rw [readEntries, readEntry_joined hkey hs hvalue, ih hls]
        rfl
      exact hread

namespace Layout

/-- The lines of a layout are joined to its entries. -/
theorem joinLines_text {d : Layout} (h : d.Legal) (hsnug : d.Snug) :
    joinLines none (Properties.lines d.text) = d.allLines.filterMap Line.entry? := by
  obtain ⟨ls, last⟩ := d
  induction ls with
  | nil =>
    cases last with
    | none => rfl
    | some l =>
      have hl := (Line.joinLines_text (h l List.mem_cons_self) (hsnug l List.mem_cons_self)).2
      refine Eq.trans hl ?_
      cases hentry : l.entry? <;> simp [allLines, hentry]
  | cons e ls ih =>
    obtain ⟨l, ending⟩ := e
    obtain ⟨hl, hls⟩ := List.forall_mem_cons.mp h
    obtain ⟨hlsnug, hlssnug⟩ := List.forall_mem_cons.mp hsnug
    have hrest := ih hls hlssnug
    have htext : (Layout.mk ((l, ending) :: ls) last).text =
        l.text ++ (ending.text ++ (Layout.mk ls last).text) := by
      simp [Layout.text]
    rw [htext, Properties.lines, (Line.joinLines_text hl hlsnug).1, ← Properties.lines, hrest]
    cases hentry : l.entry? <;> simp [allLines, hentry]

/-- **The reader finds the properties of every legal layout** in which no value goes on with a bare
blank. -/
theorem read_text {d : Layout} (h : d.Legal) (hsnug : d.Snug) :
    Properties.read d.text = .ok (.ofList d.properties) := by
  rw [Properties.read, joinLines_text h hsnug, readEntries_filterMap h]
  rfl

/-- A layout with a comment that ends in a backslash, either line end, a key that goes on in the
next line and has a character of two units, and a value that goes on at both of its ends. -/
def motley : Layout where
  lines :=
    [(.comment [' '] '#' ['n', '\\'], .returnFeed), (.blank ['\t'], .feed),
      (.entry [' '] [.piece ⟨'k', .bare⟩, .continuation .returnFeed ['\t'],
          .piece ⟨'😀', .units [true]⟩] (.blank [' '])
        [.continuation .feed [' '], .piece ⟨'=', .slashed⟩, .piece ⟨' ', .bare⟩,
          .piece ⟨'\n', .letter⟩, .continuation .feed []], .feed)]
  last := some (.entry [] [.piece ⟨'o', .units []⟩] (.marked [' '] ':' []) [.piece ⟨'é', .slashed⟩])

theorem read_text_motley : motley.Legal ∧ motley.Snug ∧
    motley.text =
      " #n\\\r\n\t\n k\\\r\n\t\\uD83d\\ude00 \\\n \\= \\n\\\n\n\\u006f :\\é".toList ∧
    Properties.read motley.text = .ok (.ofList [("k😀", "= \n"), ("o", "é")]) := by
  have hlegal : motley.Legal := by decide
  have hsnug : motley.Snug := by decide
  exact ⟨hlegal, hsnug, by decide, (read_text hlegal hsnug).trans (by rfl)⟩

/-- A value that goes on with a bare blank. -/
def blankAhead : Layout where
  lines := [(.entry [] [.piece ⟨'k', .bare⟩] (.marked [] '=' [])
    [.piece ⟨'a', .bare⟩, .continuation .feed [], .piece ⟨' ', .bare⟩, .piece ⟨'b', .bare⟩], .feed)]
  last := none

/-- **A value that goes on with a bare blank loses it**, although everything is where it can be. -/
theorem blank_lost : blankAhead.Legal ∧ blankAhead.text = "k=a\\\n b\n".toList ∧
    blankAhead.properties = [("k", "a b")] ∧
    Properties.read blankAhead.text = .ok (.ofList [("k", "ab")]) ∧
    ¬ ∀ d : Layout, d.Legal → Properties.read d.text = .ok (.ofList d.properties) := by
  have hlegal : blankAhead.Legal := by decide
  have hread : Properties.read blankAhead.text = .ok (.ofList [("k", "ab")]) := by rfl
  refine ⟨hlegal, by decide, by decide, hread, fun h => ?_⟩
  have hsame := Except.ok.inj (hread.symm.trans (h blankAhead hlegal))
  have hvalue : some "ab" = some "a b" := congrArg (SortedMap.get? · "k") hsame
  exact absurd hvalue (by decide)

end Layout

end Properties

end LiveConfig
