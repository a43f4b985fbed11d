import LiveConfig.Resolution

/-!
# A store of objects

Objects kept in memory, the way a cluster keeps them. Every change of an object gives it the next
version, which no other object has had, and is written to a feed that watch streams read. The feed
also tells streams to break off.
-/

namespace LiveConfig

/-- What a watch stream reports. -/
inductive Event where
  /-- An object was created or changed, or exists when the stream is opened. -/
  | applied (o : Object)
  /-- An object was removed. -/
  | deleted (k : ObjectKey)
  deriving DecidableEq

/-- The key of the object that an event is about. -/
def Event.key : Event → ObjectKey
  | .applied o => o.key
  | .deleted k => k

/-- An entry of a feed. -/
inductive Signal where
  | event (e : Event)
  /-- All streams break off. -/
  | disconnect
  deriving DecidableEq

/-- Objects and the history of their changes. -/
structure Store where
  objects : SortedMap ObjectKey Object
  /-- The last version that was given out. -/
  version : Nat
  /-- Everything that was signalled, in order. -/
  feed : List Signal
  /-- How many watch streams were opened. -/
  subscriptions : Nat
  deriving DecidableEq

/-- The Base64 value of a text. -/
def encodeSecret (text : String) : String :=
  String.ofList (Text.Base64.encode (Text.Utf8.encode text.toList))

namespace Store

/-- The store without any object or history. -/
def empty : Store := ⟨∅, 0, [], 0⟩

instance : EmptyCollection Store := ⟨empty⟩

/-- Add a signal to the feed. -/
def signal (s : Store) (x : Signal) : Store := { s with feed := s.feed ++ [x] }

/-- The next version as text. -/
def nextVersion (s : Store) : String := toString (s.version + 1)

/-- Create or replace an object. It gets the next version. -/
def apply (s : Store) (o : Object) : Store :=
  let o := { o with version := s.nextVersion }
  { s with objects := s.objects.insert o.key o, version := s.version + 1 }.signal
    (.event (.applied o))

/-- Create or replace an object whose values are given as text. -/
def put (s : Store) (k : ObjectKey) (labels : Labels) (data : SortedMap String String) : Store :=
  let stored := match k.kind with
    | .configMap => data
    | .secret => data.map encodeSecret
  s.apply ⟨k, labels, stored, ""⟩

/-- Give an object the next version without changing it; nothing happens if there is none. -/
def touch (s : Store) (k : ObjectKey) : Store :=
  match s.objects.get? k with
  | some o => s.apply o
  | none => s

/-- Remove an object; nothing happens if there is none. -/
def delete (s : Store) (k : ObjectKey) : Store :=
  if s.objects.contains k then
    { s with objects := s.objects.erase k }.signal (.event (.deleted k))
  else s

/-- Make all streams break off. -/
def disconnect (s : Store) : Store := s.signal .disconnect

/-- The objects of a scope, in the order of their keys. -/
def objectsIn (s : Store) (scope : Scope) : List Object :=
  s.objects.values.filter (fun o => o.key.scope == scope)

/-- The objects of a scope that carry labels, in the order of their keys. -/
def select (s : Store) (scope : Scope) (labels : Labels) : List Object :=
  (s.objectsIn scope).filter (fun o => labels.subset o.labels)

/-- A store answers every request. -/
def cluster (s : Store) : Cluster (Except Failure) where
  get k := .ok (s.objects.get? k)
  list scope labels := .ok (s.select scope labels)

/-! ### What the operations do to look-ups and to the feed -/

theorem get?_apply (s : Store) (o : Object) (k : ObjectKey) :
    (s.apply o).objects.get? k =
      if compare k o.key = .eq then some { o with version := s.nextVersion }
      else s.objects.get? k :=
  SortedMap.get?_insert ..

theorem feed_apply (s : Store) (o : Object) :
    (s.apply o).feed = s.feed ++ [.event (.applied { o with version := s.nextVersion })] := rfl

@[simp] theorem version_apply (s : Store) (o : Object) : (s.apply o).version = s.version + 1 := rfl

theorem delete_of_get?_eq_none {s : Store} {k : ObjectKey} (h : s.objects.get? k = none) :
    s.delete k = s := by
  simp [delete, SortedMap.contains, h]

theorem feed_delete_of_get?_eq_some {s : Store} {k : ObjectKey} {o : Object}
    (h : s.objects.get? k = some o) : (s.delete k).feed = s.feed ++ [.event (.deleted k)] := by
  simp [delete, SortedMap.contains, h, signal]

theorem get?_delete (s : Store) (k x : ObjectKey) :
    (s.delete k).objects.get? x = if compare k x = .eq then none else s.objects.get? x := by
  cases h : s.objects.get? k with
  | none =>
    rw [delete_of_get?_eq_none h]
    split
    · rename_i heq
      obtain rfl : k = x := Std.LawfulEqCmp.eq_of_compare heq
      exact h
    · rfl
  | some o => simp [delete, SortedMap.contains, h, signal, SortedMap.get?_erase]

@[simp] theorem version_delete (s : Store) (k : ObjectKey) : (s.delete k).version = s.version := by
  unfold delete
  split <;> rfl

theorem mem_objectsIn {s : Store} {scope : Scope} {o : Object} :
    o ∈ s.objectsIn scope ↔ o ∈ s.objects.values ∧ o.key.scope = scope := by
  simp [objectsIn]

/-! ### Instructions -/

/-- What can be done to a store. -/
inductive Step where
  | put (k : ObjectKey) (labels : Labels) (data : SortedMap String String)
  | apply (o : Object)
  | touch (k : ObjectKey)
  | delete (k : ObjectKey)
  | disconnect
  /-- Put a config map again and again, each time with the next number in it. -/
  | putMany (space name : String) (labels : Labels) (count : Nat)

/-- What a store answers. -/
inductive Answer where
  /-- The version that an object got, if there is one. -/
  | version (v : Option String)
  /-- Whether there was an object to remove. -/
  | removed (b : Bool)
  | done

/-- The data of a config map that is put again and again. -/
def numbered (i : Nat) : SortedMap String String := .ofList [("n", toString i)]

/-- Do what an instruction says. -/
def perform (s : Store) : Step → Store × Answer
  | .put k labels data => (s.put k labels data, .version (some s.nextVersion))
  | .apply o => (s.apply o, .version (some s.nextVersion))
  | .touch k =>
    (s.touch k, .version (if s.objects.contains k then some s.nextVersion else none))
  | .delete k => (s.delete k, .removed (s.objects.contains k))
  | .disconnect => (s.disconnect, .done)
  | .putMany space name labels count =>
    let t := (List.range count).foldl
      (fun t i => t.put ⟨.configMap, space, name⟩ labels (numbered i)) s
    (t, .version (if count = 0 then none else some (toString t.version)))

end Store

end LiveConfig
