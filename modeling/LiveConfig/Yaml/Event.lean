import LiveConfig.Yaml.Lexer

/-!
# Events of a YAML stream

The grammar of YAML over tokens. Reading goes by a stack of expectations: the topmost one looks at
the next token, takes what belongs to it, says what it saw as an `Event`, and leaves the
expectations for the rest. Nodes that are left out become empty plain scalars.

Every document of the stream ends up as the list of its events. A stream without any document
counts as one with no event at all.
-/

namespace LiveConfig.Yaml

/-- What happens next in a document. Starts of collections and scalars carry the anchor and the tag
of their node. -/
inductive Event where
  | aliasOf (name : String)
  | scalar (anchor : Option String) (tag : Option Tag) (text : String) (style : Style)
  | sequenceStart (anchor : Option String) (tag : Option Tag)
  | sequenceEnd
  | mappingStart (anchor : Option String) (tag : Option Tag)
  | mappingEnd
  deriving DecidableEq

/-- What may come next in a stream. -/
inductive Expectation where
  /-- A node; whether it may be a block collection, and whether a sequence may stand at the column of
  the mapping around it. -/
  | node (block atParent : Bool)
  /-- The rest of a block sequence. -/
  | blockEntries
  /-- The rest of a block sequence that stands at the column of the mapping around it. -/
  | parentEntries
  /-- The next key of a block mapping, or its end. -/
  | blockKey
  /-- The value of a block mapping's last key. -/
  | blockValue
  /-- The first or a later entry of a flow sequence, or its end. -/
  | flowEntries (first : Bool)
  /-- The key of a pair inside a flow sequence. -/
  | pairKey
  /-- The value of such a pair. -/
  | pairValue
  /-- The end of such a pair. -/
  | pairEnd
  /-- The first or a later key of a flow mapping, or its end. -/
  | flowKey (first : Bool)
  /-- The value of a flow mapping's last key. -/
  | flowValue
  /-- The missing value of a flow mapping's key that nothing marked as a key. -/
  | flowNoValue
  deriving DecidableEq

/-- An empty plain scalar. -/
def Event.blank : Event := .scalar none none "" .plain

/-- The declared tag handles and what they stand for. -/
abbrev Handles := List (String × Tag)

/-- The handles that every document knows. -/
def Handles.standard : Handles :=
  [("!", Text.Utf8.encode "!".toList), ("!!", Text.Utf8.encode "tag:yaml.org,2002:".toList)]

/-- The full form of a tag. A tag without a handle is its own full form. -/
def Handles.resolve (hs : Handles) (handle : String) (suffix : Tag) : Except Fault Tag :=
  if handle.isEmpty then .ok suffix
  else
    match hs.find? (fun h => h.1 == handle) with
    | some (_, leading) => .ok (leading ++ suffix)
    | none => .error .undeclaredHandle

/-- The anchor and the tag before a node, in either order, and the tokens behind them. -/
def properties (hs : Handles) :
    List Token → Except Fault (Option String × Option Tag × List Token)
  | .anchor a :: .tag h s :: r => do return (some a, some (← hs.resolve h s), r)
  | .anchor a :: r => .ok (some a, none, r)
  | .tag h s :: .anchor a :: r => do return (some a, some (← hs.resolve h s), r)
  | .tag h s :: r => do return (none, some (← hs.resolve h s), r)
  | r => .ok (none, none, r)

/-- What one step of reading leaves: an event if there was one, the expectations to be met before
those that were there, and the tokens that are left. -/
abbrev Step := Option Event × List Expectation × List Token

/-- Read the beginning of a node, or all of it if it is an alias or a scalar. -/
def nodeStep (hs : Handles) (block atParent : Bool) (ts : List Token) : Except Fault Step :=
  match ts with
  | .aliasOf name :: r => .ok (some (.aliasOf name), [], r)
  | ts => do
    let (anchor, tag, ts) ← properties hs ts
    match atParent, block, ts with
    | true, _, .blockEntry :: r =>
      return (some (.sequenceStart anchor tag), [.parentEntries], .blockEntry :: r)
    | _, true, .blockSequenceStart :: r =>
      return (some (.sequenceStart anchor tag), [.blockEntries], r)
    | _, true, .blockMappingStart :: r => return (some (.mappingStart anchor tag), [.blockKey], r)
    | _, _, .flowSequenceStart :: r =>
      return (some (.sequenceStart anchor tag), [.flowEntries true], r)
    | _, _, .flowMappingStart :: r => return (some (.mappingStart anchor tag), [.flowKey true], r)
    | _, _, .scalar text style :: r =>
      let tag := if tag = some (Text.Utf8.encode ['!']) then none else tag
      return (some (.scalar anchor tag text style), [], r)
    | _, _, r =>
      if anchor.isSome || tag.isSome then return (some (.scalar anchor tag "" .plain), [], r)
      else .error .grammar

/-- An empty node, with the expectations behind it. -/
def emptyStep (next : List Expectation) (ts : List Token) : Except Fault Step :=
  .ok (some .blank, next, ts)

/-- Whether a token ends an entry, key or value of a block mapping before it has begun. -/
def endsBlockPart : List Token → Bool
  | .key :: _ => true
  | .value :: _ => true
  | .blockEnd :: _ => true
  | _ => false

/-- Meet one expectation with the tokens that come next. -/
def Expectation.meet (hs : Handles) (e : Expectation) (ts : List Token) : Except Fault Step :=
  match e, ts with
  | .node block atParent, ts => nodeStep hs block atParent ts
  | .blockEntries, .blockEntry :: r =>
    match r with
    | .blockEntry :: _ => emptyStep [.blockEntries] r
    | .blockEnd :: _ => emptyStep [.blockEntries] r
    | _ => .ok (none, [.node true false, .blockEntries], r)
  | .blockEntries, .blockEnd :: r => .ok (some .sequenceEnd, [], r)
  | .parentEntries, .blockEntry :: r =>
    match r with
    | .blockEntry :: _ => emptyStep [.parentEntries] r
    | r =>
      if endsBlockPart r then emptyStep [.parentEntries] r
      else .ok (none, [.node true false, .parentEntries], r)
  | .parentEntries, ts => .ok (some .sequenceEnd, [], ts)
  | .blockKey, .key :: r =>
    if endsBlockPart r then emptyStep [.blockValue] r
    else .ok (none, [.node true true, .blockValue], r)
  | .blockKey, .blockEnd :: r => .ok (some .mappingEnd, [], r)
  | .blockValue, .value :: r =>
    if endsBlockPart r then emptyStep [.blockKey] r
    else .ok (none, [.node true true, .blockKey], r)
  | .blockValue, ts => emptyStep [.blockKey] ts
  | .flowEntries _, .flowSequenceEnd :: r => .ok (some .sequenceEnd, [], r)
  | .flowEntries false, .flowEntry :: .flowSequenceEnd :: r => .ok (some .sequenceEnd, [], r)
  | .flowEntries false, .flowEntry :: .key :: r =>
    .ok (some (.mappingStart none none), [.pairKey, .flowEntries false], r)
  | .flowEntries false, .flowEntry :: r => .ok (none, [.node false false, .flowEntries false], r)
  | .flowEntries true, .key :: r =>
    .ok (some (.mappingStart none none), [.pairKey, .flowEntries false], r)
  | .flowEntries true, ts => .ok (none, [.node false false, .flowEntries false], ts)
  | .pairKey, .value :: r => emptyStep [.pairValue] r
  | .pairKey, .flowEntry :: r => emptyStep [.pairValue] r
  | .pairKey, .flowSequenceEnd :: r => emptyStep [.pairValue] r
  | .pairKey, ts => .ok (none, [.node false false, .pairValue], ts)
  | .pairValue, .value :: r =>
    match r with
    | .flowEntry :: _ => emptyStep [.pairEnd] r
    | .flowSequenceEnd :: _ => emptyStep [.pairEnd] r
    | _ => .ok (none, [.node false false, .pairEnd], r)
  | .pairValue, ts => emptyStep [.pairEnd] ts
  | .pairEnd, ts => .ok (some .mappingEnd, [], ts)
  | .flowKey _, .flowMappingEnd :: r => .ok (some .mappingEnd, [], r)
  | .flowKey first, ts => do
    let ts ← match first, ts with
      | true, ts => pure ts
      | false, .flowEntry :: r => pure r
      | false, _ => .error .grammar
    match ts with
    | .key :: r =>
      match r with
      | .value :: _ => emptyStep [.flowValue] r
      | .flowEntry :: _ => emptyStep [.flowValue] r
      | .flowMappingEnd :: _ => emptyStep [.flowValue] r
      | _ => return (none, [.node false false, .flowValue], r)
    | .flowMappingEnd :: r => return (some .mappingEnd, [], r)
    | ts => return (none, [.node false false, .flowNoValue], ts)
  | .flowValue, .value :: r =>
    match r with
    | .flowEntry :: _ => emptyStep [.flowKey false] r
    | .flowMappingEnd :: _ => emptyStep [.flowKey false] r
    | _ => .ok (none, [.node false false, .flowKey false], r)
  | .flowValue, ts => emptyStep [.flowKey false] ts
  | .flowNoValue, ts => emptyStep [.flowKey false] ts
  | _, _ => .error .grammar

/-- Meet all expectations. `acc` holds the events so far in reverse. -/
def meetAll (hs : Handles) :
    Nat → List Event → List Expectation → List Token → Except Fault (List Event × List Token)
  | _, acc, [], ts => .ok (acc.reverse, ts)
  | 0, _, _ :: _, _ => .error .grammar
  | fuel + 1, acc, e :: stack, ts => do
    let (event, added, ts) ← e.meet hs ts
    let acc := match event with
      | some event => event :: acc
      | none => acc
    meetAll hs fuel acc (added ++ stack) ts

/-- The events of one node. No token is looked at more than a few times, which bounds the number of
steps. -/
def nodeEvents (hs : Handles) (ts : List Token) : Except Fault (List Event × List Token) :=
  meetAll hs (8 * ts.length + 8) [] [.node true false] ts

/-- Whether a token ends a document before its node has begun. -/
def endsDocument : List Token → Bool
  | .versionDirective _ _ :: _ => true
  | .tagDirective _ _ :: _ => true
  | .documentStart :: _ => true
  | .documentEnd :: _ => true
  | .streamEnd :: _ => true
  | _ => false

/-- The directives before a document: the handles they declare and the tokens behind them. -/
def directives (version : Bool) (declared : Handles) :
    List Token → Except Fault (Handles × List Token)
  | .versionDirective major minor :: r =>
    if version then .error .repeatedDirective
    else if major = 1 ∧ (minor = 1 ∨ minor = 2) then directives true declared r
    else .error .version
  | .tagDirective handle leading :: r =>
    if declared.any (fun h => h.1 == handle) then .error .repeatedDirective
    else directives version (declared ++ [(handle, leading)]) r
  | r => .ok (declared ++ Handles.standard, r)

/-- The documents that are left of a stream, each as its events. Only the first one may do without
directives and a start mark. -/
def documentsFrom : Nat → Bool → List Token → Except Fault (List (List Event))
  | 0, _, _ => .error .grammar
  | fuel + 1, first, ts =>
    let ts := if first then ts else ts.dropWhile (· == .documentEnd)
    match ts with
    | .streamEnd :: _ => .ok []
    | ts => do
      let (events, ts) ←
        if first && (!endsDocument ts || ts.head? == some .documentEnd) then
          nodeEvents Handles.standard ts
        else do
          let (hs, ts) ← directives false [] ts
          match ts with
          | .documentStart :: r =>
            if endsDocument r then pure ([Event.blank], r) else nodeEvents hs r
          | _ => .error .grammar
      let ts := match ts with
        | .documentEnd :: r => r
        | r => r
      return events :: (← documentsFrom fuel false ts)

/-- The documents of a text. A text without any is one document without events. -/
def documents (cs : List Char) : Except Fault (List (List Event)) := do
  let ts ← tokens cs
  match ← documentsFrom (ts.length + 1) true ts with
  | [] => return [[]]
  | docs => return docs

end LiveConfig.Yaml
