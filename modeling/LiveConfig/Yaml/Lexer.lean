import LiveConfig.Yaml.ScalarText

/-!
# Splitting a YAML stream into tokens

Block collections are made visible here: the column of a line decides which collections end before
it, and the first entry of a deeper column starts one.

A key of a mapping is mostly not marked as such; only the colon behind it tells. So the place where
a key might have begun is remembered as a `Candidate`, one for each level of flow collections, and
when the colon comes the missing tokens are put in at that place. A candidate is given up at the
end of its line or after 1024 characters. It is an error to give one up that stands at the column of
the current block collection, since nothing but a key may stand there.

Tokens are collected in reverse, so that the place of a candidate is near the front of the list.
-/

namespace LiveConfig.Yaml

/-- A place where a mapping key may have begun. -/
structure Candidate where
  /-- Whether nothing but a key can stand here. -/
  required : Bool
  /-- How many tokens came before. -/
  tokens : Nat
  /-- Where it is in the text. -/
  index : Nat
  line : Nat
  column : Nat

/-- A text that is being split into tokens. -/
structure Lexer where
  /-- What is left of the text. -/
  place : Cursor
  /-- The tokens so far, last one first. -/
  tokens : List Token
  /-- How many tokens there are. -/
  count : Nat
  /-- The column of the current block collection; -1 outside of all. -/
  indent : Int
  /-- The columns of the collections around it, innermost first. -/
  outer : List Int
  /-- The candidate of the current flow level. -/
  candidate : Option Candidate
  /-- The candidates of the flow levels around it; there is one for each level. -/
  suspended : List (Option Candidate)
  /-- Whether a key may begin here. -/
  keyAllowed : Bool

namespace Lexer

/-- Whether the text is inside a flow collection. -/
def inFlow (s : Lexer) : Bool := !s.suspended.isEmpty

/-- The beginning of a text. -/
def start (cs : List Char) : Lexer :=
  { place := .start cs, tokens := [], count := 0, indent := -1, outer := [], candidate := none,
    suspended := [], keyAllowed := true }

/-- Put a token behind the others. -/
def emit (t : Token) (s : Lexer) : Lexer :=
  { s with tokens := t :: s.tokens, count := s.count + 1 }

/-- Put a token before the last `count - position` ones. -/
def emitAt (position : Nat) (t : Token) (s : Lexer) : Lexer :=
  let behind := s.count - position
  { s with tokens := s.tokens.take behind ++ t :: s.tokens.drop behind, count := s.count + 1 }

/-- Move to another place. -/
def goto (p : Cursor) (s : Lexer) : Lexer := { s with place := p }

/-! ### Candidates -/

/-- Whether a candidate is out of reach for a colon at the current place. -/
def isStale (s : Lexer) (k : Candidate) : Bool :=
  k.line < s.place.line || k.index + 1024 < s.place.index

/-- A candidate, unless it is out of reach. -/
def refresh (s : Lexer) (k : Option Candidate) : Except Fault (Option Candidate) :=
  match k with
  | none => .ok none
  | some k => if s.isStale k then (if k.required then .error .missingColon else .ok none) else .ok k

/-- Give up the candidates that are out of reach. -/
def dropStale (s : Lexer) : Except Fault Lexer := do
  let suspended ← s.suspended.mapM s.refresh
  let candidate ← s.refresh s.candidate
  return { s with candidate := candidate, suspended := suspended }

/-- Give up the candidate of the current level. -/
def dropCandidate (s : Lexer) : Except Fault Lexer :=
  match s.candidate with
  | some k => if k.required then .error .missingColon else .ok { s with candidate := none }
  | none => .ok s

/-- Remember the current place as a candidate if a key may begin here. -/
def noteCandidate (s : Lexer) : Except Fault Lexer :=
  if s.keyAllowed then do
    let required := !s.inFlow && s.indent == (s.place.column : Int)
    let s ← s.dropCandidate
    let k : Candidate :=
      { required := required, tokens := s.count, index := s.place.index, line := s.place.line,
        column := s.place.column }
    return { s with candidate := some k }
  else .ok s

/-! ### Block collections -/

/-- Start a block collection at a column right of the current one. Its token goes to a position
among the tokens. Inside flow collections nothing happens. -/
def indentTo (column position : Nat) (t : Token) (s : Lexer) : Lexer :=
  if s.inFlow then s
  else if s.indent < (column : Int) then
    emitAt position t { s with indent := column, outer := s.indent :: s.outer }
  else s

/-- End the block collections that are right of a column. Inside flow collections nothing
happens. -/
def closeBlocks (column : Int) : List Int → Lexer → Lexer
  | [], s => s
  | o :: rest, s =>
    if column < s.indent then
      closeBlocks column rest (emit .blockEnd { s with indent := o, outer := rest })
    else s

/-- End the block collections that are right of a column, unless inside a flow collection. -/
def outdentTo (column : Int) (s : Lexer) : Lexer :=
  if s.inFlow then s else closeBlocks column s.outer s

/-! ### Directives and tags -/

/-- A decimal number of at most nine digits, and the place after it. -/
def scanVersionNumber (p : Cursor) : Except Fault (Nat × Cursor) :=
  let (ds, p) := p.span Char.isDigit
  if ds.isEmpty || 9 < ds.length then .error .directive
  else .ok (ds.foldl (fun n d => n * 10 + (d.toNat - '0'.toNat)) 0, p)

/-- The handle of a tag: an exclamation mark, and perhaps name characters and another one. -/
def scanHandle (p : Cursor) : Except Fault (String × Cursor) :=
  if p.sees '!' then
    let (name, p) := p.skip.span isNameChar
    if p.sees '!' then .ok (String.ofList ('!' :: name ++ ['!']), p.skip)
    else .ok (String.ofList ('!' :: name), p)
  else .error .tag

/-- A character of a tag. Verbatim tags may also contain some flow indicators. -/
def isTagChar (verbatim : Bool) (c : Char) : Bool :=
  isNameChar c || (";/?:@&=+$.%!~*'()".toList.contains c) ||
    (verbatim && (c == ',' || c == '[' || c == ']'))

/-- The length of the UTF-8 sequence that a byte leads. -/
def sequenceLength? (b : Nat) : Option Nat :=
  if b < 0x80 then some 1
  else if 0xC0 ≤ b ∧ b < 0xE0 then some 2
  else if 0xE0 ≤ b ∧ b < 0xF0 then some 3
  else if 0xF0 ≤ b ∧ b < 0xF8 then some 4
  else none

/-- One percent-escaped byte, and the place after it. -/
def scanOctet (p : Cursor) : Except Fault (Nat × Cursor) :=
  match p.rest with
  | '%' :: a :: b :: _ =>
    match hexDigit? a, hexDigit? b with
    | some x, some y => .ok (x * 16 + y, p.skipMany 3)
    | _, _ => .error .tag
  | _ => .error .tag

/-- So many percent-escaped bytes that continue a sequence. -/
def scanOctets : Nat → Cursor → Except Fault (List UInt8 × Cursor)
  | 0, p => .ok ([], p)
  | n + 1, p => do
    let (b, p) ← scanOctet p
    if 0x80 ≤ b ∧ b < 0xC0 then
      let (bs, p) ← scanOctets n p
      return (UInt8.ofNat b :: bs, p)
    else .error .tag

/-- The percent-escaped bytes of one character, and the place after them. -/
def scanEscapedBytes (p : Cursor) : Except Fault (List UInt8 × Cursor) := do
  let (b, p) ← scanOctet p
  match sequenceLength? b with
  | none => .error .tag
  | some n =>
    let (bs, p) ← scanOctets (n - 1) p
    return (UInt8.ofNat b :: bs, p)

/-- The characters of a tag that come next, as bytes behind those read so far. -/
def scanTagChars (verbatim : Bool) : Nat → Tag → Cursor → Except Fault (Tag × Cursor)
  | 0, acc, p => .ok (acc, p)
  | fuel + 1, acc, p =>
    match p.rest with
    | [] => .ok (acc, p)
    | c :: _ =>
      if isTagChar verbatim c then
        if c == '%' then do
          let (bs, p) ← scanEscapedBytes p
          scanTagChars verbatim fuel (acc ++ bs) p
        else scanTagChars verbatim fuel (acc ++ Text.Utf8.encode [c]) p.skip
      else .ok (acc, p)

/-- The characters of a tag behind those that are known already. Without any it is no tag. -/
def scanTagText (verbatim : Bool) (known : String) (p : Cursor) : Except Fault (Tag × Cursor) := do
  let (bs, p') ← scanTagChars verbatim (p.rest.length + 1) (Text.Utf8.encode (known.toList.drop 1)) p
  if known.isEmpty && p'.index == p.index then .error .tag else return (bs, p')

/-- The version in a directive. -/
def scanVersion (p : Cursor) : Except Fault (Token × Cursor) := do
  let (major, p) ← scanVersionNumber (p.skipWhile isBlank)
  if p.sees '.' then
    let (minor, p) ← scanVersionNumber p.skip
    return (.versionDirective major minor, p)
  else .error .directive

/-- The tag handle in a directive and what it stands for. -/
def scanTagDeclaration (p : Cursor) : Except Fault (Token × Cursor) := do
  let (handle, p) ← scanHandle (p.skipWhile isBlank)
  if !(handle.endsWith "!") then .error .directive
  else
    match p.rest with
    | [] => .error .directive
    | c :: _ =>
      if isBlank c then do
        let (leading, p) ← scanTagText true "" (p.skipWhile isBlank)
        if atBlankOrEnd p.rest then return (.tagDirective handle leading, p)
        else .error .directive
      else .error .directive

/-- The directive behind a percent sign, with the rest of its line. -/
def scanDirective (p : Cursor) : Except Fault (Token × Cursor) := do
  let (name, p) := p.span isNameChar
  if name.isEmpty || !atBlankOrEnd p.rest then .error .directive
  else
    let (t, p) ← match String.ofList name with
      | "YAML" => scanVersion p
      | "TAG" => scanTagDeclaration p
      | _ => .error .directive
    let p := (p.skipWhile isBlank).skipComment
    if atBreakOrEnd p.rest then return (t, p.skipBreak) else .error .directive

/-- The name of an anchor or alias behind its sign. -/
def scanName (p : Cursor) : Except Fault (String × Cursor) :=
  let (name, p) := p.span isNameChar
  let closed := endsOr (fun c => isBlank c || isBreak c || "?:,]\x7d%@`".toList.contains c) p.rest
  if name.isEmpty || !closed then .error .anchor else .ok (String.ofList name, p)

/-- A tag: verbatim between angle brackets, or with a handle in front, the mark itself being the
shortest one. -/
def scanTag (flow : Bool) (p : Cursor) : Except Fault (Token × Cursor) := do
  let (t, p) ← match p.rest with
    | '!' :: '<' :: _ => do
      let (text, p) ← scanTagText true "" (p.skipMany 2)
      if p.sees '>' then pure (Token.tag "" text, p.skip) else .error .tag
    | _ => do
      let (handle, q) ← scanHandle p
      if handle.length ≥ 2 && handle.endsWith "!" then
        let (suffix, q) ← scanTagText false "" q
        pure (Token.tag handle suffix, q)
      else
        let (suffix, q) ← scanTagText false handle q
        if suffix.isEmpty then pure (Token.tag "" (Text.Utf8.encode ['!']), q)
        else pure (Token.tag "!" suffix, q)
  if (flow && p.sees ',') || atBlankOrEnd p.rest then return (t, p) else .error .tag

/-! ### Tokens -/

/-- Skip blanks, comments and line breaks up to the next token. Tabs are skipped where no key may
begin. After a line break outside flow collections a key may begin. -/
def skipToToken : Nat → Lexer → Lexer
  | 0, s => s
  | fuel + 1, s =>
    let p := s.place
    let p := match p.rest with
      | c :: _ => if p.column == 0 && isByteOrderMark c then p.skip else p
      | [] => p
    let tabs := s.inFlow || !s.keyAllowed
    let p := (p.skipWhile (fun c => c == ' ' || (tabs && c == '\t'))).skipComment
    match p.rest with
    | [] => goto p s
    | c :: _ =>
      if isBreak c then
        let s := goto p.skipBreak s
        skipToToken fuel (if s.inFlow then s else { s with keyAllowed := true })
      else goto p s

/-- Read a sign of one character that stands for a token. -/
def take1 (t : Token) (s : Lexer) : Lexer := emit t (goto s.place.skip s)

/-- Read the start of a flow collection. -/
def openFlow (t : Token) (s : Lexer) : Except Fault Lexer := do
  let s ← s.noteCandidate
  return take1 t
    { s with suspended := s.candidate :: s.suspended, candidate := none, keyAllowed := true }

/-- Read the end of a flow collection. -/
def closeFlow (t : Token) (s : Lexer) : Except Fault Lexer := do
  let s ← s.dropCandidate
  let s := match s.suspended with
    | k :: rest => { s with candidate := k, suspended := rest }
    | [] => s
  return take1 t { s with keyAllowed := false }

/-- Read the sign before an entry of a block sequence. -/
def blockEntry (s : Lexer) : Except Fault Lexer :=
  if !s.inFlow && !s.keyAllowed then .error .misplaced
  else do
    let s := indentTo s.place.column s.count .blockSequenceStart s
    let s ← s.dropCandidate
    return take1 .blockEntry { s with keyAllowed := true }

/-- Read the sign before an explicit key. -/
def explicitKey (s : Lexer) : Except Fault Lexer :=
  if !s.inFlow && !s.keyAllowed then .error .misplaced
  else do
    let s := indentTo s.place.column s.count .blockMappingStart s
    let s ← s.dropCandidate
    return take1 .key { s with keyAllowed := !s.inFlow }

/-- Read the colon before a value; what began at the candidate turns out to be its key. -/
def valueSign (s : Lexer) : Except Fault Lexer :=
  match s.candidate with
  | some k =>
    let s := emitAt k.tokens .key s
    let s := indentTo k.column k.tokens .blockMappingStart s
    .ok (take1 .value { s with candidate := none, keyAllowed := false })
  | none =>
    if s.inFlow then .ok (take1 .value { s with keyAllowed := false })
    else if !s.keyAllowed then .error .misplaced
    else
      let s := indentTo s.place.column s.count .blockMappingStart s
      .ok (take1 .value { s with keyAllowed := true })

/-- Read a token of several characters that may begin a key. -/
def leaf (s : Lexer) (scan : Cursor → Except Fault (Token × Cursor)) : Except Fault Lexer := do
  let s ← s.noteCandidate
  let (t, p) ← scan s.place
  return emit t (goto p { s with keyAllowed := false })

/-- Read a block scalar. -/
def blockScalar (literal : Bool) (s : Lexer) : Except Fault Lexer := do
  let s ← s.dropCandidate
  let (text, p) ← scanBlock literal s.indent s.place.skip
  let style := if literal then Style.literal else Style.folded
  return emit (.scalar (String.ofList text) style) (goto p { s with keyAllowed := true })

/-- Read a quoted scalar. -/
def quotedScalar (single : Bool) (s : Lexer) : Except Fault Lexer :=
  s.leaf fun p => do
    let (text, p) ← scanQuoted single (p.rest.length + 1) [] p.skip
    let style := if single then Style.singleQuoted else Style.doubleQuoted
    return (.scalar (String.ofList text) style, p)

/-- Read a plain scalar. If it ends behind a line break, a key may begin there. -/
def plainScalar (s : Lexer) : Except Fault Lexer := do
  let s ← s.noteCandidate
  let (text, broken, p) ←
    scanPlain s.inFlow (s.indent + 1).toNat (s.place.rest.length + 1) [] Gap.none s.place
  return emit (.scalar (String.ofList text) .plain) (goto p { s with keyAllowed := broken })

/-- Read a document mark or a directive; all block collections end before it. -/
def outside (s : Lexer) (scan : Cursor → Except Fault (Token × Cursor)) : Except Fault Lexer := do
  let s ← (outdentTo (-1) s).dropCandidate
  let (t, p) ← scan s.place
  return emit t (goto p { s with keyAllowed := false })

/-- Whether a character never begins a plain scalar on its own. -/
def isIndicator (c : Char) : Bool := "-?:,[]\x7b\x7d#&*!|>'\"%@`".toList.contains c

/-- Whether the text begins with a plain scalar. Hyphens, question marks and colons begin one if
something follows them directly. -/
def startsPlain (flow : Bool) : List Char → Bool
  | [] => false
  | c :: r =>
    !(isBlank c || isBreak c || isIndicator c) ||
      (c == '-' && !(!r.isEmpty && endsOr isBlank r)) ||
      (!flow && (c == '?' || c == ':') && !atBlankOrEnd r)

/-- Read the token that begins at the current place. -/
def readToken (s : Lexer) : Except Fault Lexer :=
  match s.place.rest with
  | [] => .ok s
  | c :: r =>
    if s.place.column == 0 && c == '%' then s.outside (fun p => scanDirective p.skip)
    else if s.place.column == 0 && atDocumentMark (c :: r) then
      let t := if c == '-' then Token.documentStart else Token.documentEnd
      s.outside (fun p => .ok (t, p.skipMany 3))
    else if c == '[' then s.openFlow .flowSequenceStart
    else if c == '\x7b' then s.openFlow .flowMappingStart
    else if c == ']' then s.closeFlow .flowSequenceEnd
    else if c == '\x7d' then s.closeFlow .flowMappingEnd
    else if c == ',' then do
      let s ← s.dropCandidate
      return take1 .flowEntry { s with keyAllowed := true }
    else if c == '-' && atBlankOrEnd r then s.blockEntry
    else if c == '?' && (s.inFlow || atBlankOrEnd r) then s.explicitKey
    else if c == ':' && (s.inFlow || atBlankOrEnd r) then s.valueSign
    else if c == '*' then
      s.leaf (fun p => (scanName p.skip).map (fun (name, p) => (.aliasOf name, p)))
    else if c == '&' then
      s.leaf (fun p => (scanName p.skip).map (fun (name, p) => (.anchor name, p)))
    else if c == '!' then s.leaf (scanTag s.inFlow)
    else if c == '|' && !s.inFlow then s.blockScalar true
    else if c == '>' && !s.inFlow then s.blockScalar false
    else if c == '\'' then s.quotedScalar true
    else if c == '"' then s.quotedScalar false
    else if startsPlain s.inFlow (c :: r) then s.plainScalar
    else .error .token

/-- Read all tokens that are left. Each one takes at least a character. -/
def run : Nat → Lexer → Except Fault Lexer
  | 0, _ => .error .token
  | fuel + 1, s => do
    let s ← (skipToToken (s.place.rest.length + 1) s).dropStale
    let s := outdentTo (s.place.column : Int) s
    if s.place.rest.isEmpty then
      let s ← (outdentTo (-1) s).dropCandidate
      return emit .streamEnd s
    else
      let s ← s.readToken
      run fuel s

end Lexer

/-- The tokens of a text, the end of the stream included. -/
def tokens (cs : List Char) : Except Fault (List Token) := do
  match cs.find? (fun c => !isAdmissible c) with
  | some c => .error (.character c)
  | none =>
    let s ← (Lexer.start cs).run (cs.length + 1)
    return s.tokens.reverse

end LiveConfig.Yaml
