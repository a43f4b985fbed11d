import LiveConfig.SortedMap

/-!
# Cluster objects

The objects that configuration is read from, config maps and secrets, and the keys that tell them
apart. Keys are ordered by namespace, then name, then kind.
-/

namespace LiveConfig

/-- A map of labels. -/
abbrev Labels := SortedMap String String

/-- The kinds of objects that hold configuration. -/
inductive Kind where
  | configMap
  | secret
  deriving DecidableEq

namespace Kind

/-- The word for a kind in messages and keys. -/
def text : Kind → String
  | .configMap => "configmap"
  | .secret => "secret"

/-- The name of a kind in the cluster's interface. -/
def apiName : Kind → String
  | .configMap => "ConfigMap"
  | .secret => "Secret"

/-- The kind with a name in the cluster's interface. -/
def ofApiName? (name : String) : Option Kind :=
  if name = "ConfigMap" then some .configMap
  else if name = "Secret" then some .secret
  else none

/-- The place of a kind in the order of kinds. -/
def rank : Kind → Nat
  | .configMap => 0
  | .secret => 1

theorem rank_inj {a b : Kind} (h : a.rank = b.rank) : a = b := by
  cases a <;> cases b <;> simp_all [rank]

instance : Ord Kind := ⟨compareOn rank⟩

instance : Std.TransOrd Kind := inferInstanceAs (Std.TransCmp (compareOn rank))

instance : Std.LawfulEqOrd Kind where
  eq_of_compare {a b} h := by
    have hr : compare a.rank b.rank = .eq := h
    exact rank_inj (Std.LawfulEqCmp.eq_of_compare hr)

end Kind

/-- What identifies an object in a cluster. -/
structure ObjectKey where
  kind : Kind
  /-- The namespace. -/
  space : String
  name : String
  deriving DecidableEq

namespace ObjectKey

/-- Namespace, then name, then kind. -/
def order : ObjectKey → ObjectKey → Ordering :=
  compareLex (compareOn space) (compareLex (compareOn name) (compareOn kind))

instance : Ord ObjectKey := ⟨order⟩

instance : Std.TransOrd ObjectKey :=
  inferInstanceAs (Std.TransCmp
    (compareLex (compareOn space) (compareLex (compareOn name) (compareOn kind))))

instance : Std.LawfulEqOrd ObjectKey where
  eq_of_compare {a b} h := by
    have h' : order a b = .eq := h
    rw [order, compareLex_eq_eq, compareLex_eq_eq] at h'
    obtain ⟨hs, hn, hk⟩ := h'
    have es : a.space = b.space := Std.LawfulEqCmp.eq_of_compare hs
    have en : a.name = b.name := Std.LawfulEqCmp.eq_of_compare hn
    have ek : a.kind = b.kind := Std.LawfulEqCmp.eq_of_compare hk
    cases a
    cases b
    simp_all

/-- A key in messages: kind, namespace and name between slashes. -/
def text (k : ObjectKey) : String := k.kind.text ++ "/" ++ k.space ++ "/" ++ k.name

end ObjectKey

/-- An object as the cluster holds it. The values of a secret are Base64. -/
structure Object where
  key : ObjectKey
  labels : Labels
  data : SortedMap String String
  version : String
  deriving DecidableEq

/-- What every watch stream and every list is about: one kind of objects in one namespace. -/
structure Scope where
  kind : Kind
  space : String
  deriving DecidableEq

namespace Scope

/-- Kind, then namespace. -/
def order : Scope → Scope → Ordering := compareLex (compareOn kind) (compareOn space)

instance : Ord Scope := ⟨order⟩

instance : Std.TransOrd Scope :=
  inferInstanceAs (Std.TransCmp (compareLex (compareOn kind) (compareOn space)))

instance : Std.LawfulEqOrd Scope where
  eq_of_compare {a b} h := by
    have h' : order a b = .eq := h
    rw [order, compareLex_eq_eq] at h'
    obtain ⟨hk, hs⟩ := h'
    have ek : a.kind = b.kind := Std.LawfulEqCmp.eq_of_compare hk
    have es : a.space = b.space := Std.LawfulEqCmp.eq_of_compare hs
    cases a
    cases b
    simp_all

/-- A scope as text. -/
def text (s : Scope) : String := s.kind.text ++ "/" ++ s.space

end Scope

/-- The scope that an object with this key belongs to. -/
def ObjectKey.scope (k : ObjectKey) : Scope := ⟨k.kind, k.space⟩

end LiveConfig
