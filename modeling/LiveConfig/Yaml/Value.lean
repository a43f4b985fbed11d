import LiveConfig.Yaml.Node
import LiveConfig.Yaml.Number

/-!
# Values of a YAML document

What the nodes of a document stand for: null, truth values, numbers, texts, sequences and mappings,
some of them tagged. Plain scalars are told apart by their form; all other scalars are texts unless
a standard tag says otherwise. The keys of a mapping are all different.
-/

namespace LiveConfig.Yaml

/-- A value. -/
inductive Value where
  | null
  | bool (b : Bool)
  | number (n : Number)
  | text (s : String)
  | sequence (items : List Value)
  | mapping (pairs : List (Value × Value))
  | tagged (tag : String) (value : Value)

/-! ### Scalars -/

/-- Whether a scalar is a spelling of null. -/
def isNullWord (s : String) : Bool := s == "null" || s == "Null" || s == "NULL" || s == "~"

/-- A scalar as a truth value. -/
def boolWord? (s : String) : Option Bool :=
  if s == "true" || s == "True" || s == "TRUE" then some true
  else if s == "false" || s == "False" || s == "FALSE" then some false
  else none

/-- The value of a plain scalar without a tag. -/
def plainValue (s : String) : Except Fault Value :=
  if s.isEmpty || isNullWord s then .ok .null
  else
    match boolWord? s with
    | some b => .ok (.bool b)
    | none =>
      match Number.integer s.toList with
      | .fits n => .ok (.number n)
      | .tooLong => .error .integer
      | .other =>
        if Number.isPadded s.toList then .ok (.text s)
        else
          match Number.real? s.toList with
          | some n => .ok (.number n)
          | none => .ok (.text s)

/-- A tag of the YAML type repository. -/
def coreTag (name : String) : Tag := Text.Utf8.encode ("tag:yaml.org,2002:" ++ name).toList

/-- The value of a scalar whose tag, if any, is not one of the document's own. -/
def scalarValue (tag : Option Tag) (s : String) (style : Style) : Except Fault Value :=
  match tag with
  | none => if style = .plain then plainValue s else .ok (.text s)
  | some t =>
    if t = coreTag "bool" then
      match boolWord? s with
      | some b => .ok (.bool b)
      | none => .error .scalarForm
    else if t = coreTag "int" then
      match Number.integer s.toList with
      | .fits n => .ok (.number n)
      | .tooLong => .error .integer
      | .other => .error .scalarForm
    else if t = coreTag "float" then
      match Number.real? s.toList with
      | some n => .ok (.number n)
      | none => .error .scalarForm
    else if t = coreTag "null" then
      if isNullWord s then .ok .null else .error .scalarForm
    else if t.head? = some 0x21 ∧ style = .plain then plainValue s
    else .ok (.text s)

/-- The name of a tag of the document's own: one that begins with an exclamation mark, which is left
out unless it is all there is. -/
def localTag? (tag : Option Tag) : Option String :=
  match tag with
  | some (0x21 :: r) =>
    match Text.Utf8.decode (if r.isEmpty then [0x21] else r) with
    | .ok cs => some (String.ofList cs)
    | .error _ => none
  | _ => none

/-- A value under the tag of its node. -/
def underTag (tag : Option Tag) (v : Value) : Value :=
  match localTag? tag with
  | some name => .tagged name v
  | none => v

/-! ### Equality of keys -/

/-- A tag's name without an exclamation mark in front, unless that is all there is. -/
def bareTag (s : String) : List Char :=
  match s.toList with
  | '!' :: c :: r => c :: r
  | cs => cs

mutual

/-- Whether two values are equal as mapping keys. The order of the pairs of a mapping does not
matter. -/
def Value.same : Value → Value → Bool
  | .null, .null => true
  | .bool a, .bool b => a == b
  | .number a, .number b => a.same b
  | .text a, .text b => a == b
  | .sequence xs, .sequence ys => sameItems xs ys
  | .mapping ps, .mapping qs => ps.length == qs.length && samePairs ps qs
  | .tagged s v, .tagged t w => bareTag s == bareTag t && v.same w
  | _, _ => false

/-- Whether two sequences have equal items. -/
def sameItems : List Value → List Value → Bool
  | [], [] => true
  | x :: xs, y :: ys => x.same y && sameItems xs ys
  | _, _ => false

/-- Whether every pair of the first mapping is one of the second. -/
def samePairs : List (Value × Value) → List (Value × Value) → Bool
  | [], _ => true
  | (k, v) :: ps, qs => qs.any (fun q => k.same q.1 && v.same q.2) && samePairs ps qs

end

/-- Whether no key of a mapping is repeated. -/
def distinctKeys : List Value → Bool
  | [] => true
  | k :: r => !(r.any k.same) && distinctKeys r

/-! ### Nodes -/

mutual

/-- The value of a node. -/
def Value.ofNode : Node → Except Fault Value
  | .absent => .ok .null
  | .scalar tag s style =>
    if (localTag? tag).isSome then do
      let v ← scalarValue none s style
      return underTag tag v
    else scalarValue tag s style
  | .sequence tag items => do
    let vs ← valuesOf items
    return underTag tag (.sequence vs)
  | .mapping tag pairs => do
    let vs ← pairsOf pairs
    if distinctKeys (vs.map (·.1)) then return underTag tag (.mapping vs)
    else .error .repeatedKey

/-- The values of the items of a sequence. -/
def valuesOf : List Node → Except Fault (List Value)
  | [] => .ok []
  | n :: r => do
    let v ← Value.ofNode n
    let vs ← valuesOf r
    return v :: vs

/-- The values of the pairs of a mapping. -/
def pairsOf : List (Node × Node) → Except Fault (List (Value × Value))
  | [] => .ok []
  | (k, v) :: r => do
    let k ← Value.ofNode k
    let v ← Value.ofNode v
    let ps ← pairsOf r
    return (k, v) :: ps

end

/-- The values of the documents of a text. -/
def values (cs : List Char) : Except Fault (List Value) := do
  (← nodes cs).mapM Value.ofNode

end LiveConfig.Yaml
