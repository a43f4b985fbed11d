import LiveConfig.SortedMap
import LiveConfig.Properties.Escape

/-!
# Properties documents

A properties document is a sequence of lines. Blank lines and comments are left out; a line that
ends in an odd number of backslashes continues on the next one; every other line is a key and a
value, with an equals sign, a colon or blanks between them.

`read` gives the properties of a document, `write` a document with given properties, one to a line
in the order of the keys. What has been written is read back unchanged, unless a key is empty: an
entry without a key is no property.
-/

namespace LiveConfig.Properties

/-- The lines of a text, `acc` being the beginning of the first one in reverse. A line ends with a
line feed, and with the carriage return before it if there is one. -/
def linesFrom (acc : List Char) : List Char → List (List Char)
  | [] => if acc.isEmpty then [] else [acc.reverse]
  | '\r' :: '\n' :: r => acc.reverse :: linesFrom [] r
  | '\n' :: r => acc.reverse :: linesFrom [] r
  | c :: r => linesFrom (c :: acc) r

/-- The lines of a text. -/
def lines (cs : List Char) : List (List Char) := linesFrom [] cs

/-- Whether a line without its leading blanks holds no entry. -/
def isIdle : List Char → Bool
  | [] => true
  | c :: _ => c == '#' || c == '!'

/-- Whether a line goes on in the next one. -/
def continues (line : List Char) : Bool :=
  (line.reverse.takeWhile (· == '\\')).length % 2 == 1

/-- The entries of a document: lines joined where they continue, idle ones left out. What stands
before a line that continues an entry is given first. -/
def joinLines : Option (List Char) → List (List Char) → List (List Char)
  | none, [] => []
  | some begun, [] => [begun]
  | none, line :: r =>
    let line := line.dropWhile isBlank
    if isIdle line then joinLines none r
    else if continues line then joinLines (some line.dropLast) r
    else line :: joinLines none r
  | some begun, line :: r =>
    let line := line.dropWhile isBlank
    if continues line then joinLines (some (begun ++ line.dropLast)) r
    else (begun ++ line) :: joinLines none r

/-- Whether a character that is not escaped ends a key. -/
def isSeparator (c : Char) : Bool := c == '=' || c == ':' || isBlank c

/-- The key of an entry, still with its escapes, and what follows it. -/
def splitKey : List Char → List Char × List Char
  | [] => ([], [])
  | ['\\'] => (['\\'], [])
  | '\\' :: c :: r =>
    let (k, v) := splitKey r
    ('\\' :: c :: k, v)
  | c :: r =>
    if isSeparator c then ([], c :: r)
    else
      let (k, v) := splitKey r
      (c :: k, v)

/-- What is left of a text behind blanks, at most one equals sign or colon, and more blanks. -/
def skipSeparator (cs : List Char) : List Char :=
  match cs.dropWhile isBlank with
  | '=' :: r => r.dropWhile isBlank
  | ':' :: r => r.dropWhile isBlank
  | r => r

/-- The key and the value of an entry, still with their escapes. -/
def splitEntry (entry : List Char) : List Char × List Char :=
  let (k, rest) := splitKey entry
  (k, skipSeparator rest)

/-- The property of an entry; without a key it is none, whatever its value. -/
def readEntry (entry : List Char) : Except Fault (Option (String × String)) := do
  let (rawKey, rawValue) := splitEntry entry
  let key ← unescape rawKey
  if key.isEmpty then return none
  else
    let value ← unescape rawValue
    return some (String.ofList key, String.ofList value)

/-- The properties of entries, in their order. -/
def readEntries : List (List Char) → Except Fault (List (String × String))
  | [] => .ok []
  | e :: r => do
    let first ← readEntry e
    let rest ← readEntries r
    return first.toList ++ rest

/-- The properties of a document; of two with the same key the later one counts. -/
def read (document : List Char) : Except Fault (SortedMap String String) := do
  return .ofList (← readEntries (joinLines none (lines document)))

/-- One property as a line. -/
def writeEntry (key value : String) : List Char :=
  escape true key.toList ++ '=' :: escape false value.toList ++ ['\n']

/-- Properties as a document. -/
def write (properties : SortedMap String String) : List Char :=
  properties.entries.flatMap (fun e => writeEntry e.1 e.2)

end LiveConfig.Properties
