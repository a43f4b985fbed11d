import LiveConfig.Document
import LiveConfig.Proofs.SortedMap
import LiveConfig.Refresh

/-!
# Properties read back

A document that was written is read back as the properties that it was written from. The writer
escapes a character by what it is, whether it comes first, and whether it stands in a key; the
reader splits lines, joins them, looks for the end of the key and skips blanks before it takes any
escape out. That none of these steps is misled is shown for every *spelling* of a text, of which the
writer's is one: a character either stands behind a backslash or is one that the reader takes for
itself at that place.

The entry of an empty key is no property, so a property with an empty key is the only one that does
not come back.

## Main definitions

* `Properties.Spells` — a text is spelled by another

## Main results

* `Properties.spells_escape` — what is escaped spells what it was escaped from
* `Properties.read_write` — what is read back is what was written, without the empty key
* `Refresh.expand_file_iff` — a file is read back unchanged if and only if no key is empty
-/

namespace LiveConfig

namespace Properties

/-! ### Spellings -/

/-- A text, in a key or not, at the beginning of it or not, is spelled by another one. A character
is spelled by a letter behind a backslash, or by itself if nothing else is seen in it there. -/
inductive Spells (inKey : Bool) : Bool → List Char → List Char → Prop
  | nil (first : Bool) : Spells inKey first [] []
  | escaped {first : Bool} {c x : Char} {cs t : List Char} (hletter : ofLetter x = c)
      (hunit : x ≠ 'u') (hline : x ≠ '\r' ∧ x ≠ '\n') (h : Spells inKey false cs t) :
      Spells inKey first (c :: cs) ('\\' :: x :: t)
  | plain {first : Bool} {c : Char} {cs t : List Char} (hslash : c ≠ '\\')
      (hline : c ≠ '\r' ∧ c ≠ '\n') (hfirst : first = true → isBlank c = false)
      (hkey : inKey = true → isSeparator c = false ∧ c ≠ '#' ∧ c ≠ '!')
      (h : Spells inKey false cs t) : Spells inKey first (c :: cs) (c :: t)

/-- A character that is escaped, where it needs to be, is spelled. -/
theorem Spells.escapeChar_append {inKey : Bool} {cs t : List Char} (h : Spells inKey false cs t)
    (first : Bool) (c : Char) : Spells inKey first (c :: cs) (escapeChar inKey first c ++ t) := by
  -- the characters that are always escaped
  by_cases hslash : c = '\\'
  · subst hslash
    exact .escaped rfl (by decide) (by decide) h
  by_cases hfeed : c = '\n'
  · subst hfeed
    exact .escaped rfl (by decide) (by decide) h
  by_cases hreturn : c = '\r'
  · subst hreturn
    exact .escaped rfl (by decide) (by decide) h
  by_cases htab : c = '\t'
  · subst htab
    exact .escaped rfl (by decide) (by decide) h
  by_cases hpage : c = '\x0C'
  · subst hpage
    exact .escaped rfl (by decide) (by decide) h
  -- those that are escaped at some places
  by_cases hspace : c = ' ' ∧ first = true
  · obtain ⟨rfl, rfl⟩ := hspace
    exact .escaped rfl (by decide) (by decide) h
  by_cases hends : inKey = true ∧ endsKey c = true
  · have hwritten : escapeChar inKey first c ++ t = '\\' :: c :: t := by
      simp [escapeChar, hslash, hfeed, hreturn, htab, hpage, hspace, hends]
    have hcases : c = '=' ∨ c = ':' ∨ c = ' ' ∨ c = '#' ∨ c = '!' := by
      simpa [endsKey, or_assoc] using hends.2
    rw [hwritten]
    rcases hcases with rfl | rfl | rfl | rfl | rfl <;>
      exact .escaped rfl (by decide) (by decide) h
  -- all others
  · have hwritten : escapeChar inKey first c ++ t = c :: t := by
      simp [escapeChar, hslash, hfeed, hreturn, htab, hpage, hspace, hends]
    rw [hwritten]
    refine .plain hslash ⟨hreturn, hfeed⟩ ?_ ?_ h
    · rintro rfl
      simpa [isBlank, htab, hpage] using hspace
    · rintro rfl
      simpa [isSeparator, isBlank, endsKey, htab, hpage, and_assoc] using hends

/-- **What is escaped spells what it was escaped from.** -/
theorem spells_escape (inKey : Bool) (cs : List Char) : Spells inKey true cs (escape inKey cs) := by
  have hrest : ∀ r : List Char, Spells inKey false r (r.flatMap (escapeChar inKey false)) := by
    intro r
    induction r with
    | nil => exact .nil false
    | cons c r ih => exact ih.escapeChar_append false c
  cases cs with
  | nil => exact .nil true
  | cons c r => exact (hrest r).escapeChar_append true c

/-! ### What the reader makes of a spelling

One statement for each step of the reader, all by induction on the spelling. -/

theorem unescapeFrom_escaped {x : Char} (hx : x ≠ 'u') (fuel : Nat) (t : List Char) :
    unescapeFrom (fuel + 1) ('\\' :: x :: t) = (unescapeFrom fuel t).map (ofLetter x :: ·) := by
  rw [unescapeFrom]
  · cases unescapeFrom fuel t <;> rfl
  · exact fun h => hx h

theorem unescapeFrom_plain {c : Char} (hc : c ≠ '\\') (fuel : Nat) (t : List Char) :
    unescapeFrom (fuel + 1) (c :: t) = (unescapeFrom fuel t).map (c :: ·) := by
  rw [unescapeFrom]
  · cases unescapeFrom fuel t <;> rfl
  · exact fun h _ => hc h
  · exact fun _ h _ => hc h
  · exact fun _ _ h _ => hc h

theorem splitKey_escaped (x : Char) (t : List Char) :
    splitKey ('\\' :: x :: t) = ('\\' :: x :: (splitKey t).1, (splitKey t).2) := rfl

theorem splitKey_plain {c : Char} (hslash : c ≠ '\\') (hsep : isSeparator c = false)
    (t : List Char) : splitKey (c :: t) = (c :: (splitKey t).1, (splitKey t).2) := by
  rw [splitKey]
  · simp [hsep]
  · exact fun h _ => hslash h
  · exact fun _ _ h _ => hslash h

/-- How a line ends decides whether it continues. -/
theorem continues_append_singleton (l : List Char) (c : Char) :
    continues (l ++ [c]) = (c == '\\' && !continues l) := by
  by_cases hc : c = '\\'
  · subst hc
    simp only [continues, List.reverse_append, List.reverse_singleton, List.singleton_append,
      List.takeWhile_cons, beq_self_eq_true, if_true, List.length_cons, Bool.true_and]
    rw [Bool.eq_iff_iff]
    simp
    omega
  · simp [continues, hc]

namespace Spells

variable {inKey first : Bool} {cs t : List Char}

/-- A spelling stands for what it spells. -/
theorem unescapeFrom_eq (h : Spells inKey first cs t) {fuel : Nat} (hfuel : t.length ≤ fuel) :
    unescapeFrom fuel t = .ok cs := by
  induction h generalizing fuel with
  | nil => simp [unescapeFrom]
  | @escaped first c x cs t hletter hunit hline h ih =>
    obtain ⟨n, rfl⟩ : ∃ n, fuel = n + 1 := ⟨fuel - 1, by simp at hfuel; omega⟩
    have hrest : unescapeFrom n t = .ok cs := ih (by simp at hfuel; omega)
    rw [unescapeFrom_escaped hunit, hrest, hletter]
    rfl
  | @plain first c cs t hslash hline hfirst hkey h ih =>
    obtain ⟨n, rfl⟩ : ∃ n, fuel = n + 1 := ⟨fuel - 1, by simp at hfuel; omega⟩
    have hrest : unescapeFrom n t = .ok cs := ih (by simpa using hfuel)
    rw [unescapeFrom_plain hslash, hrest]
    rfl

theorem unescape_eq (h : Spells inKey first cs t) : unescape t = .ok cs :=
  h.unescapeFrom_eq (Nat.le_refl _)

/-- A spelling is part of one line. -/
theorem not_mem_line (h : Spells inKey first cs t) : ∀ c ∈ t, c ≠ '\r' ∧ c ≠ '\n' := by
  induction h with
  | nil => simp
  | escaped hletter hunit hline h ih => simpa [hline] using ih
  | plain hslash hline hfirst hkey h ih => simpa [hline] using ih

/-- A spelling at the beginning puts no blank in front. -/
theorem dropWhile_isBlank_append (h : Spells inKey true cs t) {r : List Char}
    (hr : r.dropWhile isBlank = r) : (t ++ r).dropWhile isBlank = t ++ r := by
  cases h with
  | nil => exact hr
  | escaped hletter hunit hline h => rfl
  | plain hslash hline hfirst hkey h => simp [hfirst rfl]

/-- A key does not make a line look like a comment. -/
theorem isIdle_append (h : Spells true true cs t) {r : List Char} (hr : isIdle r = false) :
    isIdle (t ++ r) = false := by
  cases h with
  | nil => exact hr
  | escaped hletter hunit hline h => rfl
  | plain hslash hline hfirst hkey h => simp [isIdle, hkey rfl]

/-- A key goes as far as it is spelled. -/
theorem splitKey_append (h : Spells true first cs t) (r : List Char) :
    splitKey (t ++ '=' :: r) = (t, '=' :: r) := by
  induction h with
  | nil => rfl
  | @escaped first c x cs t hletter hunit hline h ih =>
    rw [List.cons_append, List.cons_append, splitKey_escaped, ih]
  | plain hslash hline hfirst hkey h ih =>
    rw [List.cons_append, splitKey_plain hslash (hkey rfl).1, ih]

/-- Behind a line that does not continue a spelling does not make it do so. -/
theorem continues_append (h : Spells inKey first cs t) {l : List Char}
    (hl : continues l = false) : continues (l ++ t) = false := by
  induction h generalizing l with
  | nil => simpa using hl
  | @escaped first c x cs t hletter hunit hline h ih =>
    have hpair : continues (l ++ ['\\'] ++ [x]) = false := by
      rw [continues_append_singleton, continues_append_singleton, hl]
      simp
    simpa using ih hpair
  | @plain first c cs t hslash hline hfirst hkey h ih =>
    have hsingle : continues (l ++ [c]) = false := by
      simp [continues_append_singleton, hslash]
    simpa using ih hsingle

end Spells

/-! ### Lines that are taken as they are -/

/-- The reader takes a line for one entry, and for nothing less or more. -/
structure Whole (line : List Char) : Prop where
  sole : ∀ c ∈ line, c ≠ '\r' ∧ c ≠ '\n'
  flush : line.dropWhile isBlank = line
  busy : isIdle line = false
  ends : continues line = false

/-- What has no line break in it belongs to one line. -/
theorem linesFrom_text {line : List Char} (h : ∀ c ∈ line, c ≠ '\r' ∧ c ≠ '\n')
    (acc r : List Char) : linesFrom acc (line ++ r) = linesFrom (line.reverse ++ acc) r := by
  induction line generalizing acc with
  | nil => rfl
  | cons c line ih =>
    obtain ⟨hc, hline⟩ := List.forall_mem_cons.mp h
    rw [List.cons_append, linesFrom, ih hline, List.reverse_cons, List.append_assoc]
    · rfl
    · exact fun _ hr _ => hc.1 hr
    · exact hc.2

theorem linesFrom_append {line : List Char} (h : ∀ c ∈ line, c ≠ '\r' ∧ c ≠ '\n')
    (acc r : List Char) :
    linesFrom acc (line ++ '\n' :: r) = (acc.reverse ++ line) :: linesFrom [] r := by
  rw [linesFrom_text h, linesFrom, List.reverse_append, List.reverse_reverse]

/-- Whole lines are the entries of the document that they make up. -/
theorem joinLines_lines {ls : List (List Char)} (h : ∀ line ∈ ls, Whole line) :
    joinLines none (lines (ls.flatMap (· ++ ['\n']))) = ls := by
  induction ls with
  | nil => rfl
  | cons line ls ih =>
    obtain ⟨hline, hls⟩ := List.forall_mem_cons.mp h
    have hlines : lines ((line :: ls).flatMap (· ++ ['\n'])) =
        line :: lines (ls.flatMap (· ++ ['\n'])) := by
      simpa [lines] using linesFrom_append hline.sole [] (ls.flatMap (· ++ ['\n']))
    rw [hlines, joinLines]
    simp only [hline.flush, hline.busy, hline.ends, Bool.false_eq_true, if_false]
    rw [ih hls]

/-! ### Entries that were written -/

/-- The line of a property. -/
def writtenLine (key value : String) : List Char :=
  escape true key.toList ++ '=' :: escape false value.toList

theorem whole_writtenLine (key value : String) : Whole (writtenLine key value) where
  sole := by
    intro c hc
    rcases List.mem_append.mp hc with hc | hc
    · exact (spells_escape true key.toList).not_mem_line c hc
    · rcases List.mem_cons.mp hc with rfl | hc
      · decide
      · exact (spells_escape false value.toList).not_mem_line c hc
  flush := (spells_escape true key.toList).dropWhile_isBlank_append rfl
  busy := (spells_escape true key.toList).isIdle_append rfl
  ends := by
    have hkey : continues (escape true key.toList ++ ['=']) = false := by
      rw [continues_append_singleton]
      rfl
    simpa [writtenLine] using (spells_escape false value.toList).continues_append hkey

theorem splitEntry_writtenLine (key value : String) :
    splitEntry (writtenLine key value) = (escape true key.toList, escape false value.toList) := by
  have hkey := (spells_escape true key.toList).splitKey_append (escape false value.toList)
  have hblank : (escape false value.toList).dropWhile isBlank = escape false value.toList := by
    simpa using (spells_escape false value.toList).dropWhile_isBlank_append (r := []) rfl
  have hvalue : skipSeparator ('=' :: escape false value.toList) = escape false value.toList :=
    hblank
  rw [writtenLine, splitEntry, hkey]
  exact congrArg (Prod.mk _) hvalue

/-- A property is read back from its line, unless its key is empty. -/
theorem readEntry_writtenLine (key value : String) :
    readEntry (writtenLine key value) =
      .ok (if key = "" then none else some (key, value)) := by
  have hread : readEntry (writtenLine key value) =
      if key.toList.isEmpty = true then .ok none
      else .ok (some (String.ofList key.toList, String.ofList value.toList)) := by
    rw [readEntry, splitEntry_writtenLine]
    simp only [(spells_escape _ _).unescape_eq]
    rfl
  rw [hread]
  by_cases hkey : key = ""
  · simp [hkey]
  · simp [hkey]

theorem readEntries_map (l : List (String × String)) :
    readEntries (l.map fun e => writtenLine e.1 e.2) = .ok (l.filter fun e => e.1 ≠ "") := by
  induction l with
  | nil => rfl
  | cons e l ih =>
    rw [List.map_cons, readEntries, readEntry_writtenLine, ih]
    by_cases hkey : e.1 = ""
    · simp [hkey]
      rfl
    · simp [hkey]
      rfl

/-- **What is read back is what was written**, without the property that has no key. -/
theorem read_write (m : SortedMap String String) : read (write m) = .ok (m.erase "") := by
  have hwrite : write m = (m.entries.map fun e => writtenLine e.1 e.2).flatMap (· ++ ['\n']) := by
    simp [write, writeEntry, writtenLine, List.flatMap_map]
  have hjoin : joinLines none (lines (write m)) = m.entries.map fun e => writtenLine e.1 e.2 := by
    rw [hwrite]
    refine joinLines_lines ?_
    intro line hline
    obtain ⟨e, -, rfl⟩ := List.mem_map.mp hline
    exact whole_writtenLine e.1 e.2
  have hentries : (m.entries.filter fun e => e.1 ≠ "") = (m.erase "").entries := by
    refine List.filter_congr ?_
    intro e _
    rw [Bool.eq_iff_iff, decide_eq_true_eq, bne_iff_ne, ne_eq, ne_eq, Std.compare_eq_iff_eq,
      eq_comm]
  rw [read, hjoin, readEntries_map, hentries]
  exact congrArg Except.ok (SortedMap.ofList_entries _)

end Properties

namespace Refresh

theorem expand_file (s : Snapshot) :
    Document.expand .properties (file s) = .ok (s.properties.erase "") := by
  rw [Document.expand, file, String.toList_ofList, Properties.read_write]
  rfl

/-- **A file is read back unchanged if and only if no key is empty.** -/
theorem expand_file_iff (s : Snapshot) :
    Document.expand .properties (file s) = .ok s.properties ↔ ∀ k ∈ s.properties.keys, k ≠ "" := by
  rw [expand_file, Except.ok.injEq, SortedMap.erase_eq_self_iff]
  constructor
  · rintro h k hk rfl
    exact h (SortedMap.mem_keys.mp hk)
  · intro h hmem
    exact h "" (SortedMap.mem_keys.mpr hmem) rfl

end Refresh

end LiveConfig
