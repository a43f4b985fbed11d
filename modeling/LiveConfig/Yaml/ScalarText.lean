import LiveConfig.Yaml.Token
import LiveConfig.Yaml.Fault

/-!
# The text of a scalar

How the characters of a scalar are read off a YAML text: block scalars, quoted scalars and plain
scalars, each with its own way of folding the lines it spans.

Inside quoted and plain scalars a stretch of blanks and line breaks is a `Gap`. Blanks alone stand
for themselves. With a line break in it the blanks are dropped, a single break becomes a space, and
of several breaks all but the first stay.
-/

namespace LiveConfig.Yaml

/-- A stretch of blanks and line breaks between parts of a scalar. -/
structure Gap where
  /-- The blanks before the first break. -/
  blanks : List Char
  /-- The first break. -/
  first : List Char
  /-- The later breaks. -/
  later : List Char
  /-- Whether there is a break at all. -/
  broken : Bool

namespace Gap

/-- No stretch at all. -/
def none : Gap := ⟨[], [], [], false⟩

/-- The beginning of a stretch whose break is escaped and stands for nothing. -/
def escaped : Gap := ⟨[], [], [], true⟩

/-- The text that a stretch stands for. -/
def fold (g : Gap) : List Char :=
  if g.broken then
    match g.first with
    | '\n' :: _ => if g.later.isEmpty then [' '] else g.later
    | other => other ++ g.later
  else g.blanks

/-- Read a stretch. A tab left of column `indent` on a line after the first is refused. -/
def scan (indent : Nat) : Nat → Gap → Cursor → Except Fault (Gap × Cursor)
  | 0, g, p => .ok (g, p)
  | fuel + 1, g, p =>
    match p.rest with
    | [] => .ok (g, p)
    | c :: _ =>
      if isBlank c then
        if g.broken then
          if c == '\t' && p.column < indent then .error .tab
          else scan indent fuel g p.skip
        else scan indent fuel { g with blanks := g.blanks ++ [c] } p.skip
      else if isBreak c then
        let (b, p) := p.lineBreak
        if g.broken then scan indent fuel { g with later := g.later ++ b } p
        else scan indent fuel ⟨[], b, [], true⟩ p
      else .ok (g, p)

end Gap

/-! ### Quoted scalars -/

/-- The value of a hexadecimal digit. -/
def hexDigit? (c : Char) : Option Nat :=
  if '0' ≤ c ∧ c ≤ '9' then some (c.toNat - '0'.toNat)
  else if 'a' ≤ c ∧ c ≤ 'f' then some (c.toNat - 'a'.toNat + 10)
  else if 'A' ≤ c ∧ c ≤ 'F' then some (c.toNat - 'A'.toNat + 10)
  else none

/-- The value of exactly so many hexadecimal digits that come next. -/
def hexCode? (acc : Nat) : Nat → List Char → Option Nat
  | 0, _ => some acc
  | _ + 1, [] => none
  | n + 1, c :: r =>
    match hexDigit? c with
    | some d => hexCode? (acc * 16 + d) n r
    | none => none

/-- The character that a one-letter escape stands for. -/
def simpleEscape? (c : Char) : Option Char :=
  match c with
  | '0' => some '\x00'
  | 'a' => some '\x07'
  | 'b' => some '\x08'
  | 't' => some '\t'
  | '\t' => some '\t'
  | 'n' => some '\n'
  | 'v' => some '\x0B'
  | 'f' => some '\x0C'
  | 'r' => some '\r'
  | 'e' => some '\x1B'
  | ' ' => some ' '
  | '"' => some '"'
  | '/' => some '/'
  | '\\' => some '\\'
  | 'N' => some '\u0085'
  | '_' => some '\u00A0'
  | 'L' => some '\u2028'
  | 'P' => some '\u2029'
  | _ => none

/-- How many hexadecimal digits follow the letter of an escape. -/
def codeLength? (c : Char) : Option Nat :=
  match c with
  | 'x' => some 2
  | 'u' => some 4
  | 'U' => some 8
  | _ => none

/-- The character of an escape whose letter comes next, and the place after the escape. -/
def scanEscape (p : Cursor) : Except Fault (Char × Cursor) :=
  match p.rest with
  | [] => .error .escape
  | c :: r =>
    match simpleEscape? c with
    | some d => .ok (d, p.skip)
    | none =>
      match codeLength? c with
      | none => .error .escape
      | some n =>
        match hexCode? 0 n r with
        | none => .error .escape
        | some code =>
          if (0xD800 ≤ code && code ≤ 0xDFFF) || 0x10FFFF < code then .error .escape
          else .ok (Char.ofNat code, p.skipMany (n + 1))

/-- A run of characters of a quoted scalar up to a blank, a break or the closing quote: what they
stand for, in reverse behind what came before, whether an escaped break ended the run, and the place
reached. -/
def scanQuotedRun (single : Bool) : Nat → List Char → Cursor →
    Except Fault (List Char × Bool × Cursor)
  | 0, acc, p => .ok (acc, false, p)
  | fuel + 1, acc, p =>
    match p.rest with
    | [] => .ok (acc, false, p)
    | c :: r =>
      if isBlank c || isBreak c then .ok (acc, false, p)
      else if single then
        match c, r with
        | '\'', '\'' :: _ => scanQuotedRun single fuel ('\'' :: acc) (p.skipMany 2)
        | '\'', _ => .ok (acc, false, p)
        | c, _ => scanQuotedRun single fuel (c :: acc) p.skip
      else if c == '"' then .ok (acc, false, p)
      else if c == '\\' then
        match r with
        | d :: _ =>
          if isBreak d then .ok (acc, true, p.skip.skipBreak)
          else do
            let (e, p) ← scanEscape p.skip
            scanQuotedRun single fuel (e :: acc) p
        | [] => .error .escape
      else scanQuotedRun single fuel (c :: acc) p.skip

/-- The text of a quoted scalar behind its opening quote, and the place after the closing one. -/
def scanQuoted (single : Bool) : Nat → List Char → Cursor → Except Fault (List Char × Cursor)
  | 0, _, _ => .error .unclosedQuote
  | fuel + 1, acc, p =>
    if p.column == 0 && atDocumentMark p.rest then .error .unclosedQuote
    else if p.rest.isEmpty then .error .unclosedQuote
    else do
      let (acc, escaped, p) ← scanQuotedRun single (p.rest.length + 1) acc p
      if p.sees (if single then '\'' else '"') then return (acc.reverse, p.skip)
      else
        let opening := if escaped then Gap.escaped else Gap.none
        let (g, p) ← Gap.scan 0 (p.rest.length + 1) opening p
        scanQuoted single fuel (g.fold.reverse ++ acc) p

/-! ### Plain scalars -/

/-- Whether a character always ends a plain scalar inside a flow collection. -/
def isFlowIndicator (c : Char) : Bool :=
  c == ',' || c == '[' || c == ']' || c == '\x7b' || c == '\x7d'

/-- A run of characters of a plain scalar up to a blank, a break or an indicator. -/
def scanPlainRun (flow : Bool) : Nat → List Char → Cursor → Except Fault (List Char × Cursor)
  | 0, acc, p => .ok (acc, p)
  | fuel + 1, acc, p =>
    match p.rest with
    | [] => .ok (acc, p)
    | c :: r =>
      if isBlank c || isBreak c then .ok (acc, p)
      else if flow && c == ':' && !r.isEmpty && endsOr (fun d => isFlowIndicator d || d == '?') r then
        .error .colon
      else if (c == ':' && atBlankOrEnd r) || (flow && isFlowIndicator c) then .ok (acc, p)
      else scanPlainRun flow fuel (c :: acc) p.skip

/-- The text of a plain scalar, the place after it and whether a line break was passed behind its
last character. `acc` is the text so far in reverse, `gap` what has been passed behind it. -/
def scanPlain (flow : Bool) (indent : Nat) : Nat → List Char → Gap → Cursor →
    Except Fault (List Char × Bool × Cursor)
  | 0, acc, gap, p => .ok (acc.reverse, gap.broken, p)
  | fuel + 1, acc, gap, p =>
    if (p.column == 0 && atDocumentMark p.rest) || p.sees '#' then
      .ok (acc.reverse, gap.broken, p)
    else do
      let (run, p') ← scanPlainRun flow (p.rest.length + 1) [] p
      let acc := if run.isEmpty then acc else run ++ gap.fold.reverse ++ acc
      let gap := if run.isEmpty then gap else Gap.none
      match p'.rest with
      | [] => return (acc.reverse, gap.broken, p')
      | c :: _ =>
        if isBlank c || isBreak c then
          let (gap, p) ← Gap.scan indent (p'.rest.length + 1) gap p'
          if !flow && p.column < indent then return (acc.reverse, gap.broken, p)
          else scanPlain flow indent fuel acc gap p
        else return (acc.reverse, gap.broken, p')

/-! ### Block scalars -/

/-- What happens to the line breaks at the end of a block scalar. -/
inductive Chomping where
  | strip
  | clip
  | keep
  deriving DecidableEq

/-- The chomping that an indicator stands for. -/
def chomping? (c : Char) : Option Chomping :=
  if c = '+' then some .keep else if c = '-' then some .strip else none

/-- The indentation that an indicator stands for; zero is refused. -/
def indentation? (c : Char) : Except Fault (Option Nat) :=
  if c = '0' then .error .blockHeader
  else if c.isDigit then .ok (some (c.toNat - '0'.toNat))
  else .ok none

/-- The indicators behind the sign of a block scalar, in either order, and the place after them. -/
def scanBlockHeader (p : Cursor) : Except Fault (Chomping × Option Nat × Cursor) :=
  match p.rest with
  | [] => .ok (.clip, none, p)
  | c :: r =>
    match chomping? c with
    | some chomp =>
      match r with
      | [] => .ok (chomp, none, p.skip)
      | d :: _ => do
        match ← indentation? d with
        | some n => return (chomp, some n, p.skipMany 2)
        | none => return (chomp, none, p.skip)
    | none => do
      match ← indentation? c with
      | none => return (.clip, none, p)
      | some n =>
        match r with
        | [] => return (.clip, some n, p.skip)
        | d :: _ =>
          match chomping? d with
          | some chomp => return (chomp, some n, p.skipMany 2)
          | none => return (.clip, some n, p.skip)

/-- The place after the spaces that indent a line: all of them if the indentation is not yet
known. -/
def skipIndent (indent : Option Nat) (p : Cursor) : Cursor :=
  match indent with
  | none => p.skipWhile (· == ' ')
  | some n =>
    let spaces := (p.rest.take (n - p.column)).takeWhile (· == ' ')
    p.skipMany spaces.length

/-- The empty lines that come next in a block scalar: their breaks, the greatest column reached, and
the place after the indentation of the next line that is not empty. -/
def scanBlockBreaks (indent : Option Nat) : Nat → List Char → Nat → Cursor →
    Except Fault (List Char × Nat × Cursor)
  | 0, acc, widest, p => .ok (acc, widest, p)
  | fuel + 1, acc, widest, p =>
    let p := skipIndent indent p
    let widest := max widest p.column
    let inside := match indent with
      | none => true
      | some n => decide (p.column < n)
    if inside && p.sees '\t' then .error .tab
    else
      match p.rest with
      | [] => .ok (acc, widest, p)
      | c :: _ =>
        if isBreak c then
          let (b, p) := p.lineBreak
          scanBlockBreaks indent fuel (acc ++ b) widest p
        else .ok (acc, widest, p)

/-- The content lines of a block scalar with known indentation. `acc` is the text so far in reverse,
`last` the break behind its last line, `breaks` those of the empty lines that followed, and `open`
whether the last line began with a blank. -/
def scanBlockLines (literal : Bool) (indent : Nat) : Nat → List Char → List Char → List Char → Bool →
    Cursor → Except Fault (List Char × List Char × List Char × Cursor)
  | 0, acc, last, breaks, _, p => .ok (acc, last, breaks, p)
  | fuel + 1, acc, last, breaks, wasBlank, p =>
    if p.column == indent && !p.rest.isEmpty then do
      let blank := match p.rest with
        | c :: _ => isBlank c
        | [] => false
      let folds := !literal && last.head? == some '\n' && !wasBlank && !blank
      let joint := if folds then (if breaks.isEmpty then [' '] else []) else last
      let (line, p) := p.span (fun c => !isBreak c)
      let acc := line.reverse ++ breaks.reverse ++ joint.reverse ++ acc
      let (last, p) := p.lineBreak
      let (breaks, _, p) ← scanBlockBreaks (some indent) (p.rest.length + 1) [] 0 p
      scanBlockLines literal indent fuel acc last breaks blank p
    else .ok (acc, last, breaks, p)

/-- The text of a block scalar behind its sign, inside a collection indented by `outer`, and the
place after it. -/
def scanBlock (literal : Bool) (outer : Int) (p : Cursor) : Except Fault (List Char × Cursor) := do
  let (chomp, increment, p) ← scanBlockHeader p
  let p := (p.skipWhile isBlank).skipComment
  if !atBreakOrEnd p.rest then .error .blockHeader
  else
    let p := p.skipBreak
    let declared := increment.map (fun (n : Nat) => if 0 ≤ outer then (outer + (n : Int)).toNat else n)
    let (breaks, widest, p) ← scanBlockBreaks declared (p.rest.length + 1) [] 0 p
    let indent := declared.getD (max widest (max (outer + 1).toNat 1))
    let (acc, last, breaks, p) ←
      scanBlockLines literal indent (p.rest.length + 1) [] [] breaks false p
    let tail := match chomp with
      | .strip => []
      | .clip => last
      | .keep => last ++ breaks
    return (acc.reverse ++ tail, p)

end LiveConfig.Yaml
