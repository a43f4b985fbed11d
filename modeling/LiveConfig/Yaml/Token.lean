import LiveConfig.Text.Utf8

/-!
# Tokens of a YAML stream

The tokens that the text of a YAML stream consists of, and a place in such a text.
-/

namespace LiveConfig.Yaml

/-- How a scalar is written. -/
inductive Style where
  | plain
  | singleQuoted
  | doubleQuoted
  | literal
  | folded
  deriving DecidableEq

/-- A tag as bytes: escapes in a tag need not form text. -/
abbrev Tag := List UInt8

/-- The smallest units of a YAML stream. The starts and ends of block collections are tokens too,
although no character stands for them. -/
inductive Token where
  | versionDirective (major minor : Nat)
  | tagDirective (handle : String) (leading : Tag)
  | documentStart
  | documentEnd
  | blockSequenceStart
  | blockMappingStart
  | blockEnd
  | flowSequenceStart
  | flowSequenceEnd
  | flowMappingStart
  | flowMappingEnd
  | blockEntry
  | flowEntry
  | key
  | value
  | aliasOf (name : String)
  | anchor (name : String)
  | tag (handle : String) (suffix : Tag)
  | scalar (text : String) (style : Style)
  | streamEnd
  deriving DecidableEq

/-! ### Characters -/

/-- A space or a tab. -/
def isBlank (c : Char) : Bool := c == ' ' || c == '\t'

/-- A line break. -/
def isBreak (c : Char) : Bool :=
  c == '\r' || c == '\n' || c == '\u0085' || c == '\u2028' || c == '\u2029'

/-- A character of the name of an anchor, a directive or a tag handle. -/
def isNameChar (c : Char) : Bool := c.isAlphanum || c == '_' || c == '-'

/-- The mark that may begin a text or a line. -/
def isByteOrderMark (c : Char) : Bool := c == '\uFEFF'

/-- Whether a document may contain a character. -/
def isAdmissible (c : Char) : Bool :=
  let n := c.toNat
  n == 0x09 || n == 0x0A || n == 0x0D || (0x20 ≤ n && n ≤ 0x7E) || n == 0x85 ||
    (0xA0 ≤ n && n ≤ 0xD7FF) || (0xE000 ≤ n && n ≤ 0xFFFD) || 0x10000 ≤ n

/-- Whether the text is at its end or at a character of a class. -/
def endsOr (p : Char → Bool) : List Char → Bool
  | [] => true
  | c :: _ => p c

/-- Whether the text is at a blank, at a line break or at its end. -/
def atBlankOrEnd : List Char → Bool := endsOr (fun c => isBlank c || isBreak c)

/-- Whether the text is at a line break or at its end. -/
def atBreakOrEnd : List Char → Bool := endsOr isBreak

/-- Whether the text begins with a line of three hyphens or three points. -/
def atDocumentMark : List Char → Bool
  | '-' :: '-' :: '-' :: r => atBlankOrEnd r
  | '.' :: '.' :: '.' :: r => atBlankOrEnd r
  | _ => false

/-! ### Places -/

/-- A place in the text: what is left to read, and how far that is from the beginning. -/
structure Cursor where
  /-- The characters not yet read. -/
  rest : List Char
  /-- How many characters have been read. -/
  index : Nat
  /-- How many lines have been read. -/
  line : Nat
  /-- How many characters of the current line have been read. -/
  column : Nat

namespace Cursor

/-- The beginning of a text. -/
def start (cs : List Char) : Cursor := ⟨cs, 0, 0, 0⟩

/-- The place after one character of the current line. -/
def skip (p : Cursor) : Cursor :=
  match p.rest with
  | [] => p
  | _ :: r => ⟨r, p.index + 1, p.line, p.column + 1⟩

/-- The place after so many characters of the current line. -/
def skipMany (p : Cursor) : Nat → Cursor
  | 0 => p
  | n + 1 => p.skip.skipMany n

/-- The characters of a class that come next, all on the current line, and the place after them. -/
def span (f : Char → Bool) (p : Cursor) : List Char × Cursor :=
  let cs := p.rest.takeWhile f
  (cs, ⟨p.rest.dropWhile f, p.index + cs.length, p.line, p.column + cs.length⟩)

/-- The place after the characters of a class that come next. -/
def skipWhile (f : Char → Bool) (p : Cursor) : Cursor := (p.span f).2

/-- The line break that comes next, if any, as the text it stands for, and the place after it. The
common breaks all stand for a line feed. -/
def lineBreak (p : Cursor) : List Char × Cursor :=
  match p.rest with
  | '\r' :: '\n' :: r => (['\n'], ⟨r, p.index + 2, p.line + 1, 0⟩)
  | c :: r =>
    if c == '\u2028' || c == '\u2029' then ([c], ⟨r, p.index + 1, p.line + 1, 0⟩)
    else if isBreak c then (['\n'], ⟨r, p.index + 1, p.line + 1, 0⟩)
    else ([], p)
  | [] => ([], p)

/-- The place after the line break that comes next, if any. -/
def skipBreak (p : Cursor) : Cursor := p.lineBreak.2

/-- The place after a comment, if one comes next; its line break is not skipped. -/
def skipComment (p : Cursor) : Cursor :=
  match p.rest with
  | '#' :: _ => p.skipWhile (fun c => !isBreak c)
  | _ => p

/-- Whether the next character is this one. -/
def sees (p : Cursor) (c : Char) : Bool :=
  match p.rest with
  | d :: _ => c == d
  | [] => false

end Cursor

end LiveConfig.Yaml
