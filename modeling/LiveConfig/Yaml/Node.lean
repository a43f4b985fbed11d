import LiveConfig.Yaml.Event

/-!
# Nodes of a YAML document

A document as a tree, with every alias replaced by what it stands for.

Anchors are numbered while the events are read: a new anchor gets the number of different names
seen so far, and a number belongs to the last node that got it. An alias takes the number that its
name has at that point, so it may stand for a node that comes later in the document.

Trees are at most 128 collections deep, and aliases are followed at most a hundred times as often as
the document has events.
-/

namespace LiveConfig.Yaml

/-- A tree of scalars, sequences and mappings, each with its tag. -/
inductive Node where
  /-- The node of a document without content. -/
  | absent
  | scalar (tag : Option Tag) (text : String) (style : Style)
  | sequence (tag : Option Tag) (items : List Node)
  | mapping (tag : Option Tag) (pairs : List (Node × Node))

/-- The deepest nesting of collections. -/
def depthLimit : Nat := 128

/-- How often aliases may be followed for each event of a document. -/
def repetitionLimit : Nat := 100

/-- The numbers of the anchors of a document, by name and by position. -/
structure Anchors where
  /-- The number of each name; the names are all different. -/
  numbers : List (String × Nat)
  /-- The position of each number; the latest entry counts. -/
  positions : List (Nat × Nat)

namespace Anchors

/-- Number the anchor of the event at a position. -/
def note (a : Anchors) (name : Option String) (position : Nat) : Anchors :=
  match name with
  | none => a
  | some name =>
    let n := a.numbers.length
    { numbers := (name, n) :: a.numbers.filter (fun e => e.1 != name)
      positions := (n, position) :: a.positions }

/-- The number of a name. -/
def number? (a : Anchors) (name : String) : Option Nat :=
  (a.numbers.find? (fun e => e.1 == name)).map (·.2)

/-- The position of a number. -/
def position? (a : Anchors) (n : Nat) : Option Nat :=
  (a.positions.find? (fun e => e.1 == n)).map (·.2)

end Anchors

/-- An event in which an alias is known by its number. -/
inductive Mark where
  | aliasOf (number : Nat)
  | scalar (tag : Option Tag) (text : String) (style : Style)
  | sequenceStart (tag : Option Tag)
  | mappingStart (tag : Option Tag)
  | collectionEnd

/-- Number the anchors and aliases of the events from a position on. -/
def marksFrom (position : Nat) (a : Anchors) : List Event → Except Fault (List Mark × Anchors)
  | [] => .ok ([], a)
  | e :: r => do
    let (m, a) ← match e with
      | .aliasOf name =>
        match a.number? name with
        | some n => pure (Mark.aliasOf n, a)
        | none => .error .unknownAlias
      | .scalar anchor tag text style => pure (.scalar tag text style, a.note anchor position)
      | .sequenceStart anchor tag => pure (.sequenceStart tag, a.note anchor position)
      | .mappingStart anchor tag => pure (.mappingStart tag, a.note anchor position)
      | .sequenceEnd => pure (.collectionEnd, a)
      | .mappingEnd => pure (.collectionEnd, a)
    let (ms, a) ← marksFrom (position + 1) a r
    return (m :: ms, a)

/-- The events of a document with its anchors. -/
structure Outline where
  marks : Array Mark
  anchors : Anchors

namespace Outline

/-- Number the anchors of a document. -/
def ofEvents (es : List Event) : Except Fault Outline := do
  let (ms, a) ← marksFrom 0 ⟨[], []⟩ es
  return ⟨ms.toArray, a⟩

/-- What is found at a position: a node or the end of a collection. `used` counts the aliases
followed so far; the position and the count behind the node are returned with it. -/
abbrev Found := Option Node × Nat × Nat

mutual

/-- The node at a position, inside `depth` more levels of collections. -/
def nodeAt (o : Outline) : Nat → Nat → Nat → Nat → Except Fault Found
  | 0, _, _, _ => .error .repetition
  | fuel + 1, depth, used, position =>
    match o.marks[position]? with
    | none => .error .grammar
    | some .collectionEnd => .ok (none, position + 1, used)
    | some (.scalar tag text style) => .ok (some (.scalar tag text style), position + 1, used)
    | some (.sequenceStart tag) => do
      if depth = 0 then .error .depth
      else
        let (items, next, used) ← o.itemsAt fuel (depth - 1) used (position + 1)
        return (some (.sequence tag items), next, used)
    | some (.mappingStart tag) => do
      if depth = 0 then .error .depth
      else
        let (pairs, next, used) ← o.pairsAt fuel (depth - 1) used (position + 1)
        return (some (.mapping tag pairs), next, used)
    | some (.aliasOf n) =>
      if repetitionLimit * o.marks.size < used + 1 then .error .repetition
      else
        match o.anchors.position? n with
        | none => .error .unknownAlias
        | some target => do
          let (node, _, used) ← o.nodeAt fuel depth (used + 1) target
          return (node, position + 1, used)

/-- The items of a sequence from a position on. -/
def itemsAt (o : Outline) : Nat → Nat → Nat → Nat → Except Fault (List Node × Nat × Nat)
  | 0, _, _, _ => .error .repetition
  | fuel + 1, depth, used, position => do
    match ← o.nodeAt fuel depth used position with
    | (none, next, used) => return ([], next, used)
    | (some item, next, used) =>
      let (items, next, used) ← o.itemsAt fuel depth used next
      return (item :: items, next, used)

/-- The pairs of a mapping from a position on. -/
def pairsAt (o : Outline) : Nat → Nat → Nat → Nat → Except Fault (List (Node × Node) × Nat × Nat)
  | 0, _, _, _ => .error .repetition
  | fuel + 1, depth, used, position => do
    match ← o.nodeAt fuel depth used position with
    | (none, next, used) => return ([], next, used)
    | (some key, next, used) =>
      match ← o.nodeAt fuel depth used next with
      | (none, _, _) => .error .grammar
      | (some value, next, used) =>
        let (pairs, next, used) ← o.pairsAt fuel depth used next
        return ((key, value) :: pairs, next, used)

end

/-- The tree of a document. The bound on the steps allows for every alias to be followed as often as
is permitted and for the whole document to be read each time. -/
def root (o : Outline) : Except Fault Node := do
  if o.marks.isEmpty then return .absent
  else
    let n := o.marks.size
    match ← o.nodeAt (2 * (n + 1) * (repetitionLimit * n + 2)) depthLimit 0 0 with
    | (some node, _, _) => return node
    | (none, _, _) => .error .grammar

end Outline

/-- The trees of the documents of a text. -/
def nodes (cs : List Char) : Except Fault (List Node) := do
  (← documents cs).mapM (fun es => do (← Outline.ofEvents es).root)

/-- The tree of a text that is one document. -/
def soleNode (cs : List Char) : Except Fault Node := do
  match ← nodes cs with
  | [n] => return n
  | _ => .error .severalDocuments

end LiveConfig.Yaml
