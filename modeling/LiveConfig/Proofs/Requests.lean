import LiveConfig.Resolution

/-!
# Requests to a changing cluster

A cluster may answer each request as it likes: what it says to one request binds it to nothing at
the next, and any request may fail. Such a cluster is a sequence of clusters, the first of which
answers the first request, the second one the second, and so on. How many requests were made is
known also after one of them has failed.

As long as all requests are answered by the same cluster, rules resolve to what they resolve to
there. Like any comparison of a resolution with one in another monad, that comes down to the answers
to single requests.

## Main definitions

* `Congruent` — a relation between two monads that is kept by all that resolutions are made of
* `Asking` — computations that ask a cluster and may fail, with the number of requests so far
* `Cluster.inTurn` — the cluster whose requests are answered by one cluster after the other
* `Asking.ActsAs` — while one cluster answers, a computation does what another one does

## Main results

* `Congruent.resolve` — if answers are related then resolutions are
* `resolve_actsAs` — while one cluster answers, rules resolve to what they resolve to there
-/

namespace LiveConfig

universe u

/-! ### Computations that may fail -/

theorem bind_eq_ok {ε α β : Type} {x : Except ε α} {f : α → Except ε β} {b : β} :
    x >>= f = .ok b ↔ ∃ a, x = .ok a ∧ f a = .ok b := by
  cases x with
  | error e => exact ⟨nofun, nofun⟩
  | ok a => exact ⟨fun hb => ⟨a, rfl, hb⟩, fun ⟨_, ha, hb⟩ => by cases ha; exact hb⟩

theorem bind_eq_error {ε α β : Type} {x : Except ε α} {f : α → Except ε β} {e : ε} :
    x >>= f = .error e ↔ x = .error e ∨ ∃ a, x = .ok a ∧ f a = .error e := by
  constructor
  · intro h
    cases x with
    | error e' =>
      cases h
      exact Or.inl rfl
    | ok a => exact Or.inr ⟨a, rfl, h⟩
  · rintro (rfl | ⟨a, rfl, h⟩)
    · rfl
    · exact h

theorem eq_ok_of_toOption {ε α : Type} {e : Except ε α} {a : α} (h : e.toOption = some a) :
    e = .ok a := by
  cases e with
  | error f => cases h
  | ok b => exact congrArg Except.ok (Option.some.inj h)

theorem mapError_eq_ok_iff {ε ε' α : Type} {x : Except ε α} {f : ε → ε'} {a : α} :
    x.mapError f = .ok a ↔ x = .ok a := by
  cases x with
  | ok b => exact ⟨fun h => by cases h; rfl, fun h => by cases h; rfl⟩
  | error e => exact ⟨nofun, nofun⟩

theorem mapError_eq_error_iff {ε ε' α : Type} {x : Except ε α} {f : ε → ε'} {e : ε'} :
    x.mapError f = .error e ↔ ∃ a, x = .error a ∧ f a = e := by
  cases x with
  | ok a => exact ⟨nofun, nofun⟩
  | error a =>
    constructor
    · intro h
      cases h
      exact ⟨a, rfl, rfl⟩
    · rintro ⟨_, ha, rfl⟩
      cases ha
      rfl

/-! ### The same resolution in two monads -/

section Congruent

variable {m : Type → Type u} [Monad m] [MonadExcept Failure m]

/-- A relation between computations is kept by all that resolutions are made of. -/
structure Congruent (R : {α : Type} → m α → Except Failure α → Prop) : Prop where
  pure : ∀ {α : Type} (a : α), R (Pure.pure a) (Pure.pure a)
  throw : ∀ {α : Type} (e : Failure), R (throw e : m α) (throw e)
  bind : ∀ {α β : Type} {x : m α} {y : Except Failure α} {f : α → m β} {g : α → Except Failure β},
    R x y → (∀ a, R (f a) (g a)) → R (x >>= f) (y >>= g)

namespace Congruent

variable {R : {α : Type} → m α → Except Failure α → Prop} (hR : Congruent R) {c : Cluster m}
  {d : Cluster (Except Failure)} (hget : ∀ k, R (c.get k) (d.get k))
  (hlist : ∀ scope labels, R (c.list scope labels) (d.list scope labels))
  (o : Options) (space : String)

include hR in
theorem ite {α : Type} (b : Bool) (e : Failure) {x : m α} {y : Except Failure α} (hx : R x y) :
    R (if b then MonadExcept.throw e else x) (if b then MonadExcept.throw e else y) := by
  cases b
  · exact hx
  · exact hR.throw e

include hR hget

theorem findAll (r : Rule) (qualifier : Option String) (names : List String) :
    R (findAll c r space qualifier names) (findAll d r space qualifier names) := by
  induction names with
  | nil => exact hR.pure _
  | cons name rest ih => exact hR.bind (hget _) fun _ => hR.bind ih fun _ => hR.pure _

theorem findNamed (r : Rule) (name : String) :
    R (findNamed c o r space name) (findNamed d o r space name) := by
  refine hR.bind (hget _) fun found => hR.ite _ _ ?_
  exact hR.bind (hR.findAll hget space r _ _) fun _ => hR.pure _

include hlist

theorem findBy (r : Rule) : R (findBy c o space r) (findBy d o space r) := by
  cases hr : r.selection with
  | named name =>
    simp only [LiveConfig.findBy, hr]
    exact hR.findNamed hget o space r name
  | labelled labels =>
    simp only [LiveConfig.findBy, hr]
    exact hR.bind (hlist _ _) fun _ => hR.ite _ _ (hR.pure _)

theorem findByAll (rules : List Rule) :
    R (findByAll c o space rules) (findByAll d o space rules) := by
  induction rules with
  | nil => exact hR.pure _
  | cons r rest ih =>
    exact hR.bind (hR.findBy hget hlist o space r) fun _ => hR.bind ih fun _ => hR.pure _

/-- **If answers are related then resolutions are.** -/
theorem resolve (rules : List Rule) : R (resolve c o space rules) (resolve d o space rules) :=
  hR.bind (hR.findByAll hget hlist o space rules) fun _ => hR.pure _

end Congruent

end Congruent

/-! ### One cluster after the other -/

/-- Computations that ask a cluster and may fail. The number of requests outlives a failure. -/
abbrev Asking := ExceptT Failure (StateM Nat)

/-- The cluster whose requests are answered by one cluster after the other. -/
def Cluster.inTurn (h : Nat → Cluster (Except Failure)) : Cluster Asking where
  get k := fun n => ((h n).get k, n + 1)
  list scope labels := fun n => ((h n).list scope labels, n + 1)

namespace Asking

variable {α β : Type}

/-- Run a computation after a number of requests: what comes of it, and the number of requests
then. -/
def runFrom (x : Asking α) (n : Nat) : Except Failure α × Nat := x n

theorem runFrom_bind (x : Asking α) (f : α → Asking β) (n : Nat) :
    (x >>= f).runFrom n = match x.runFrom n with
      | (.ok a, n') => (f a).runFrom n'
      | (.error e, n') => (.error e, n') := by
  simp only [runFrom, Bind.bind, ExceptT.bind, ExceptT.mk, StateT.bind, ExceptT.bindCont]
  rcases x n with ⟨_ | _, _⟩ <;> rfl

theorem ext {x y : Asking α} (h : ∀ n, x.runFrom n = y.runFrom n) : x = y := funext h

theorem runFrom_pure (a : α) (n : Nat) : (pure a : Asking α).runFrom n = (.ok a, n) := rfl

theorem runFrom_bind_eq_ok {x : Asking α} {f : α → Asking β} {n m : Nat} {b : β} :
    (x >>= f).runFrom n = (.ok b, m) ↔
      ∃ a n', x.runFrom n = (.ok a, n') ∧ (f a).runFrom n' = (.ok b, m) := by
  rw [runFrom_bind]
  rcases x.runFrom n with ⟨e | a, n'⟩
  · simp
  · constructor
    · intro h
      exact ⟨a, n', rfl, h⟩
    · rintro ⟨_, _, hx, h⟩
      cases hx
      exact h

theorem runFrom_bind_eq_error {x : Asking α} {f : α → Asking β} {n m : Nat} {e : Failure} :
    (x >>= f).runFrom n = (.error e, m) ↔ x.runFrom n = (.error e, m) ∨
      ∃ a n', x.runFrom n = (.ok a, n') ∧ (f a).runFrom n' = (.error e, m) := by
  rw [runFrom_bind]
  rcases x.runFrom n with ⟨e' | a, n'⟩
  · simp
  · constructor
    · intro h
      exact Or.inr ⟨a, n', rfl, h⟩
    · rintro (hx | ⟨_, _, hx, h⟩)
      · cases hx
      · cases hx
        exact h

/-- A computation takes no request back, and if all its requests are answered by one cluster, then
it does what another one does. -/
def ActsAs (h : Nat → Cluster (Except Failure)) (c : Cluster (Except Failure)) (x : Asking α)
    (y : Except Failure α) : Prop :=
  ∀ n, n ≤ (x.runFrom n).2 ∧
    ((∀ i, n ≤ i → i < (x.runFrom n).2 → h i = c) → (x.runFrom n).1 = y)

variable {h : Nat → Cluster (Except Failure)} {c : Cluster (Except Failure)}

theorem runFrom_get (h : Nat → Cluster (Except Failure)) (k : ObjectKey) (n : Nat) :
    ((Cluster.inTurn h).get k).runFrom n = ((h n).get k, n + 1) := rfl

theorem runFrom_list (h : Nat → Cluster (Except Failure)) (scope : Scope) (labels : Labels)
    (n : Nat) :
    ((Cluster.inTurn h).list scope labels).runFrom n = ((h n).list scope labels, n + 1) := rfl

/-- The requests of a sequence are those of its parts. -/
theorem ActsAs.bind {x : Asking α} {y : Except Failure α} {f : α → Asking β}
    {g : α → Except Failure β} (hx : ActsAs h c x y) (hf : ∀ a, ActsAs h c (f a) (g a)) :
    ActsAs h c (x >>= f) (y >>= g) := by
  intro n
  have hn := hx n
  rw [runFrom_bind]
  generalize x.runFrom n = run at hn ⊢
  obtain ⟨e | a, n'⟩ := run
  all_goals obtain ⟨hle, hsame⟩ := hn
  · refine ⟨hle, fun hc => ?_⟩
    have hy : .error e = y := hsame hc
    rw [← hy]
    rfl
  · obtain ⟨hle', hsame'⟩ := hf a n'
    refine ⟨Nat.le_trans hle hle', fun hc => ?_⟩
    have hy : .ok a = y := hsame fun i hi hlt => hc i hi (Nat.lt_of_lt_of_le hlt hle')
    rw [← hy]
    exact hsame' fun i hi hlt => hc i (Nat.le_trans hle hi) hlt

theorem congruent_actsAs (h : Nat → Cluster (Except Failure)) (c : Cluster (Except Failure)) :
    Congruent (ActsAs h c) where
  pure _ := fun n => ⟨Nat.le_refl n, fun _ => rfl⟩
  throw _ := fun n => ⟨Nat.le_refl n, fun _ => rfl⟩
  bind := ActsAs.bind

/-- One request is answered by the cluster whose turn it is. -/
theorem actsAs_of_request {x : Asking α} (answer : Cluster (Except Failure) → Except Failure α)
    (hx : ∀ n, x.runFrom n = (answer (h n), n + 1)) : ActsAs h c x (answer c) := by
  intro n
  rw [hx]
  exact ⟨Nat.le_succ n, fun hc => congrArg answer (hc n (Nat.le_refl n) (Nat.lt_succ_self n))⟩

end Asking

/-- **While one cluster answers, rules resolve to what they resolve to there.** -/
theorem resolve_actsAs (h : Nat → Cluster (Except Failure)) (c : Cluster (Except Failure))
    (o : Options) (space : String) (rules : List Rule) :
    Asking.ActsAs h c (resolve (.inTurn h) o space rules) (resolve c o space rules) :=
  (Asking.congruent_actsAs h c).resolve
    (fun k => Asking.actsAs_of_request (·.get k) fun _ => rfl)
    (fun scope labels => Asking.actsAs_of_request (·.list scope labels) fun _ => rfl)
    o space rules

end LiveConfig
