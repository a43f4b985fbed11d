import LiveConfig.Proofs.Requests
import Mathlib.Data.List.Forall2

/-!
# Inquiries

The rules say in advance what a cluster will be asked and in which order: for the object that a rule
names and then for its variants, or for whatever carries the labels that it gives. Each answer by
itself either adds findings or is a failure, and the first failure ends the resolution before
anything else is asked. So a resolution is told from the answers alone, without any of the loops
that make it; and since listings are sorted, the order in which a cluster lists objects is nowhere
to be seen in it.

## Main definitions

* `Inquiry`, `Rule.inquiries` — a request and what it is made for, and those of a rule in order
* `Rule.Qualifies` — the qualifier of what is found under a name
* `InOrder` — objects of a listing in the order of their names
* `Inquiry.Finds`, `Inquiry.Fails` — what comes of an answer
* `inquire` — inquiries made one after the other
* `Cluster.Relists` — a cluster answers like another one, but for the order of its listings

## Main results

* `InOrder.unique` — there is one such order
* `Inquiry.judge_eq_ok_iff`, `Inquiry.judge_eq_error_iff` — what comes of an answer, computed
* `findByAll_inTurn` — rules resolve by making their inquiries
* `resolve_inTurn_eq_ok_iff`, `resolve_inTurn_eq_error_iff` — so they come to what these come to
* `inquire_eq_ok_iff`, `inquire_eq_error_iff` — what inquiries come to, told from the answers
* `inquire_eq_of_relists` — the order of listings is nowhere to be seen
-/

namespace LiveConfig

/-! ### Inquiries -/

/-- A request to a cluster, and what it is made for. -/
inductive Inquiry where
  /-- The object that a rule names. -/
  | declared (r : Rule) (name : String)
  /-- Its variant for a profile. -/
  | variant (r : Rule) (name profile : String)
  /-- All objects that carry the labels that a rule gives. -/
  | labelled (r : Rule) (labels : Labels)

/-- The inquiries of a rule, in order. -/
def Rule.inquiries (o : Options) (r : Rule) : List Inquiry :=
  match r.selection with
  | .named name => .declared r name :: o.profiles.map (.variant r name)
  | .labelled labels => [.labelled r labels]

/-- The qualifier of what a rule finds under a name: the rule's own one, if it is not empty; else
the name, if names qualify for the rule or, if that does not say, in general; else none. -/
inductive Rule.Qualifies (o : Options) (r : Rule) (name : String) : Option String → Prop
  | own {q : String} (hown : r.qualifier = some q) (hne : q ≠ "") : Qualifies o r name (some q)
  | byName (hnone : ∀ q, r.qualifier = some q → q = "")
      (hname : r.nameQualifies = some true ∨ r.nameQualifies = none ∧ o.nameQualifies = true) :
      Qualifies o r name (some name)
  | plain (hnone : ∀ q, r.qualifier = some q → q = "")
      (hplain : r.nameQualifies = some false ∨ r.nameQualifies = none ∧ o.nameQualifies = false) :
      Qualifies o r name none

/-- The objects of a listing in the order of their names; objects of the same name keep the order of
the listing. -/
structure InOrder (listed os : List Object) : Prop where
  perm : os.Perm listed
  ascending : os.Pairwise fun x y => x.key.name ≤ y.key.name
  stable : ∀ name, os.filter (·.key.name == name) = listed.filter (·.key.name == name)

namespace Inquiry

variable (o : Options) (space : String) (c : Cluster (Except Failure))

/-- What is found if a cluster answers an inquiry. -/
inductive Finds : Inquiry → List Finding → Prop
  | present {r : Rule} {name : String} {q : Option String} {x : Object}
      (hget : c.get ⟨r.kind, r.space.getD space, name⟩ = .ok (some x))
      (hqualifies : r.Qualifies o name q) : Finds (.declared r name) [⟨x, q⟩]
  | skipped {r : Rule} {name : String}
      (hget : c.get ⟨r.kind, r.space.getD space, name⟩ = .ok none) (hskip : o.failFast = false) :
      Finds (.declared r name) []
  | variant {r : Rule} {name profile : String} {q : Option String} {x : Object}
      (hget : c.get ⟨r.kind, r.space.getD space, name ++ "-" ++ profile⟩ = .ok (some x))
      (hqualifies : r.Qualifies o name q) : Finds (.variant r name profile) [⟨x, q⟩]
  | noVariant {r : Rule} {name profile : String}
      (hget : c.get ⟨r.kind, r.space.getD space, name ++ "-" ++ profile⟩ = .ok none) :
      Finds (.variant r name profile) []
  | listed {r : Rule} {labels : Labels} {listed : List Object} {fs : List Finding}
      (hlist : c.list ⟨r.kind, r.space.getD space⟩ labels = .ok listed)
      (hproceed : listed = [] → o.emptySelector = .proceed)
      (horder : InOrder listed (fs.map Finding.object))
      (hqualifies : ∀ f ∈ fs, r.Qualifies o f.object.key.name f.qualifier) :
      Finds (.labelled r labels) fs

/-- How the answer of a cluster to an inquiry is a failure. -/
inductive Fails : Inquiry → Failure → Prop
  | declared {r : Rule} {name : String} {f : Failure}
      (hget : c.get ⟨r.kind, r.space.getD space, name⟩ = .error f) : Fails (.declared r name) f
  | absent {r : Rule} {name : String}
      (hget : c.get ⟨r.kind, r.space.getD space, name⟩ = .ok none) (hfail : o.failFast = true) :
      Fails (.declared r name) (.absent r.kind (r.space.getD space) name)
  | variant {r : Rule} {name profile : String} {f : Failure}
      (hget : c.get ⟨r.kind, r.space.getD space, name ++ "-" ++ profile⟩ = .error f) :
      Fails (.variant r name profile) f
  | labelled {r : Rule} {labels : Labels} {f : Failure}
      (hlist : c.list ⟨r.kind, r.space.getD space⟩ labels = .error f) :
      Fails (.labelled r labels) f
  | noneSelected {r : Rule} {labels : Labels}
      (hlist : c.list ⟨r.kind, r.space.getD space⟩ labels = .ok [])
      (hfail : o.emptySelector = .fail) :
      Fails (.labelled r labels) (.noneSelected r.kind (r.space.getD space) labels)

/-- What comes of the answer of a cluster to an inquiry. -/
def judge : Inquiry → Except Failure (List Finding)
  | .declared r name =>
    match c.get (r.keyIn space name) with
    | .ok (some x) => .ok [⟨x, r.qualifierFor o name⟩]
    | .ok none => if o.failFast then .error (.absent r.kind (r.spaceIn space) name) else .ok []
    | .error f => .error f
  | .variant r name profile =>
    match c.get (r.keyIn space (name ++ "-" ++ profile)) with
    | .ok (some x) => .ok [⟨x, r.qualifierFor o name⟩]
    | .ok none => .ok []
    | .error f => .error f
  | .labelled r labels =>
    match c.list (r.scopeIn space) labels with
    | .ok listed =>
      if listed = [] ∧ o.emptySelector = .fail then
        .error (.noneSelected r.kind (r.spaceIn space) labels)
      else .ok ((sortByName listed).map fun x => ⟨x, r.qualifierFor o x.key.name⟩)
    | .error f => .error f

end Inquiry

/-! ### Qualifiers -/

namespace Rule

variable {o : Options} {r : Rule} {name : String}

theorem qualifierFor_of_own {q : String} (hown : r.qualifier = some q) (hne : q ≠ "") :
    r.qualifierFor o name = some q := by
  have hfilter : r.qualifier.filter (!·.isEmpty) = some q := by
    rw [hown, Option.filter_some, if_pos (by simpa using hne)]
  rw [qualifierFor, hfilter]

theorem qualifierFor_of_no_own (hnone : ∀ q, r.qualifier = some q → q = "") :
    r.qualifierFor o name = if r.nameQualifies.getD o.nameQualifies then some name else none := by
  have hfilter : r.qualifier.filter (!·.isEmpty) = none := by
    rw [Option.filter_eq_none_iff]
    intro q hq
    simp [hnone q hq]
  rw [qualifierFor, hfilter]

/-- There is one qualifier for a name. -/
theorem qualifies_iff {q : Option String} : r.Qualifies o name q ↔ r.qualifierFor o name = q := by
  constructor
  · rintro (⟨hown, hne⟩ | ⟨hnone, hname⟩ | ⟨hnone, hplain⟩)
    · exact qualifierFor_of_own hown hne
    · rw [qualifierFor_of_no_own hnone]
      rcases hname with hr | ⟨hr, ho⟩ <;> simp [*]
    · rw [qualifierFor_of_no_own hnone]
      rcases hplain with hr | ⟨hr, ho⟩ <;> simp [*]
  · rintro rfl
    by_cases hown : ∃ q, r.qualifier = some q ∧ q ≠ ""
    · obtain ⟨q, hq, hne⟩ := hown
      rw [qualifierFor_of_own hq hne]
      exact .own hq hne
    · have hnone : ∀ q, r.qualifier = some q → q = "" :=
        fun q hq => Decidable.byContradiction fun hne => hown ⟨q, hq, hne⟩
      rw [qualifierFor_of_no_own hnone]
      cases hr : r.nameQualifies with
      | none =>
        cases ho : o.nameQualifies with
        | true => exact .byName hnone (Or.inr ⟨hr, ho⟩)
        | false => exact .plain hnone (Or.inr ⟨hr, ho⟩)
      | some b =>
        cases b with
        | true => exact .byName hnone (Or.inl hr)
        | false => exact .plain hnone (Or.inl hr)

end Rule

/-! ### Listings in order -/

namespace InOrder

variable {os os' : List Object}

theorem mem_iff_of_filter_eq
    (hsame : ∀ name, os.filter (·.key.name == name) = os'.filter (·.key.name == name))
    {x : Object} : x ∈ os ↔ x ∈ os' := by
  have hx : ∀ l : List Object, x ∈ l ↔ x ∈ l.filter (·.key.name == x.key.name) := by simp
  rw [hx os, hx os', hsame]

/-- Ascending lists that agree on the objects of each name are the same. -/
theorem eq_of_filter_eq (h : os.Pairwise fun x y => x.key.name ≤ y.key.name)
    (h' : os'.Pairwise fun x y => x.key.name ≤ y.key.name)
    (hsame : ∀ name, os.filter (·.key.name == name) = os'.filter (·.key.name == name)) :
    os = os' := by
  induction os generalizing os' with
  | nil =>
    exact (List.eq_nil_iff_forall_not_mem.mpr fun _ hx =>
      List.not_mem_nil ((mem_iff_of_filter_eq hsame).mpr hx)).symm
  | cons x os ih =>
    cases os' with
    | nil => exact absurd ((mem_iff_of_filter_eq hsame).mp List.mem_cons_self) List.not_mem_nil
    | cons y os' =>
      obtain ⟨hx, hos⟩ := List.pairwise_cons.mp h
      obtain ⟨hy, hos'⟩ := List.pairwise_cons.mp h'
      -- Each head has the least name of its list, so both stand first among those of that name.
      have hxy : x.key.name ≤ y.key.name := by
        rcases List.mem_cons.mp ((mem_iff_of_filter_eq hsame).mpr List.mem_cons_self) with
          rfl | hmem
        · exact String.le_refl _
        · exact hx y hmem
      have hyx : y.key.name ≤ x.key.name := by
        rcases List.mem_cons.mp ((mem_iff_of_filter_eq hsame).mp List.mem_cons_self) with
          rfl | hmem
        · exact String.le_refl _
        · exact hy x hmem
      have hname : y.key.name = x.key.name := String.le_antisymm hyx hxy
      have hhead := hsame x.key.name
      rw [List.filter_cons_of_pos (by simp), List.filter_cons_of_pos (by simp [hname])] at hhead
      obtain rfl := (List.cons.inj hhead).1
      refine congrArg _ (ih hos hos' fun name => ?_)
      have hcons := hsame name
      rw [List.filter_cons, List.filter_cons] at hcons
      split at hcons
      · exact (List.cons.inj hcons).2
      · exact hcons

/-- **There is one order of a listing.** -/
theorem unique {listed : List Object} (h : InOrder listed os) (h' : InOrder listed os') :
    os = os' :=
  eq_of_filter_eq h.ascending h'.ascending fun name => (h.stable name).trans (h'.stable name).symm

theorem sortByName (listed : List Object) : InOrder listed (sortByName listed) := by
  have htrans : ∀ a b c : Object, decide (a.key.name ≤ b.key.name) = true →
      decide (b.key.name ≤ c.key.name) = true → decide (a.key.name ≤ c.key.name) = true := by
    intro a b c hab hbc
    exact decide_eq_true (String.le_trans (of_decide_eq_true hab) (of_decide_eq_true hbc))
  have htotal : ∀ a b : Object,
      (decide (a.key.name ≤ b.key.name) || decide (b.key.name ≤ a.key.name)) = true := by
    intro a b
    simpa using String.le_total a.key.name b.key.name
  have hperm := List.mergeSort_perm listed fun a b => decide (a.key.name ≤ b.key.name)
  refine ⟨hperm, (List.pairwise_mergeSort htrans htotal listed).imp of_decide_eq_true,
    fun name => ?_⟩
  -- What has the same name is in order as it stands, and what is in order is not disturbed.
  have hordered : (listed.filter (·.key.name == name)).Pairwise fun a b =>
      decide (a.key.name ≤ b.key.name) = true := by
    refine List.pairwise_iff_forall_sublist.mpr fun {a b} hab => ?_
    have ha := hab.subset List.mem_cons_self
    have hb := hab.subset (List.mem_cons_of_mem _ List.mem_cons_self)
    rw [List.mem_filter, beq_iff_eq] at ha hb
    exact decide_eq_true (ha.2.trans hb.2.symm ▸ String.le_refl _)
  have hsub := (List.sublist_mergeSort htrans htotal hordered List.filter_sublist).filter
    (·.key.name == name)
  rw [List.filter_filter] at hsub
  simp only [Bool.and_self] at hsub
  exact (hsub.eq_of_length (hperm.filter _).length_eq.symm).symm

end InOrder

/-! ### Single inquiries -/

namespace Inquiry

variable {o : Options} {space : String} {c : Cluster (Except Failure)} {q : Inquiry}

theorem Finds.judge_eq {fs : List Finding} (h : q.Finds o space c fs) :
    q.judge o space c = .ok fs := by
  rcases h with ⟨hget, hqualifies⟩ | ⟨hget, hskip⟩ | ⟨hget, hqualifies⟩ | ⟨hget⟩ |
    @⟨r, labels, listed, _, hlist, hproceed, horder, hqualifies⟩
  · rw [judge, Rule.keyIn, Rule.spaceIn, hget, Rule.qualifies_iff.mp hqualifies]
  · simp only [judge, Rule.keyIn, Rule.spaceIn, hget, hskip, Bool.false_eq_true, if_false]
  · rw [judge, Rule.keyIn, Rule.spaceIn, hget, Rule.qualifies_iff.mp hqualifies]
  · rw [judge, Rule.keyIn, Rule.spaceIn, hget]
  · have hgoesOn : ¬ (listed = [] ∧ o.emptySelector = .fail) := by
      rintro ⟨hnone, hfail⟩
      rw [hproceed hnone] at hfail
      cases hfail
    have hfs : ∀ f ∈ fs, (⟨f.object, r.qualifierFor o f.object.key.name⟩ : Finding) = f := by
      intro f hf
      rw [Rule.qualifies_iff.mp (hqualifies f hf)]
    simp only [judge, Rule.scopeIn, Rule.spaceIn, hlist, if_neg hgoesOn]
    rw [← horder.unique (InOrder.sortByName listed), List.map_map]
    exact congrArg _ ((List.map_congr_left hfs).trans (List.map_id fs))

theorem Fails.judge_eq {f : Failure} (h : q.Fails o space c f) : q.judge o space c = .error f := by
  rcases h with ⟨hget⟩ | ⟨hget, hfail⟩ | ⟨hget⟩ | ⟨hlist⟩ | ⟨hlist, hfail⟩
  · rw [judge, Rule.keyIn, Rule.spaceIn, hget]
  · simp only [judge, Rule.keyIn, Rule.spaceIn, hget, hfail, if_true]
  · rw [judge, Rule.keyIn, Rule.spaceIn, hget]
  · rw [judge, Rule.scopeIn, Rule.spaceIn, hlist]
  · simp only [judge, Rule.scopeIn, Rule.spaceIn, hlist, hfail, and_self, if_true]

/-- Either something is found by an inquiry or it fails. -/
theorem finds_or_fails (o : Options) (space : String) (c : Cluster (Except Failure)) (q : Inquiry) :
    (∃ fs, q.Finds o space c fs) ∨ ∃ f, q.Fails o space c f := by
  cases q with
  | declared r name =>
    rcases hget : c.get (r.keyIn space name) with f | _ | x
    · exact Or.inr ⟨f, .declared hget⟩
    · cases hfail : o.failFast with
      | true => exact Or.inr ⟨_, .absent hget hfail⟩
      | false => exact Or.inl ⟨_, .skipped hget hfail⟩
    · exact Or.inl ⟨_, .present hget (Rule.qualifies_iff.mpr rfl)⟩
  | variant r name profile =>
    rcases hget : c.get (r.keyIn space (name ++ "-" ++ profile)) with f | _ | x
    · exact Or.inr ⟨f, .variant hget⟩
    · exact Or.inl ⟨_, .noVariant hget⟩
    · exact Or.inl ⟨_, .variant hget (Rule.qualifies_iff.mpr rfl)⟩
  | labelled r labels =>
    cases hlist : c.list (r.scopeIn space) labels with
    | error f => exact Or.inr ⟨f, .labelled hlist⟩
    | ok listed =>
      by_cases hstops : listed = [] ∧ o.emptySelector = .fail
      · obtain ⟨rfl, hfail⟩ := hstops
        exact Or.inr ⟨_, .noneSelected hlist hfail⟩
      · have hproceed : listed = [] → o.emptySelector = .proceed := by
          intro hnone
          cases hpolicy : o.emptySelector with
          | proceed => rfl
          | fail => exact absurd ⟨hnone, hpolicy⟩ hstops
        refine Or.inl ⟨(sortByName listed).map fun x => ⟨x, r.qualifierFor o x.key.name⟩,
          .listed hlist hproceed ?_ ?_⟩
        · rw [List.map_map]
          exact (List.map_id (sortByName listed)).symm ▸ InOrder.sortByName listed
        · rintro f hf
          obtain ⟨x, -, rfl⟩ := List.mem_map.mp hf
          exact Rule.qualifies_iff.mpr rfl

/-- **What is found by an inquiry.** -/
theorem judge_eq_ok_iff {fs : List Finding} :
    q.judge o space c = .ok fs ↔ q.Finds o space c fs := by
  refine ⟨fun h => ?_, Finds.judge_eq⟩
  rcases finds_or_fails o space c q with ⟨gs, hfinds⟩ | ⟨f, hfails⟩
  · cases h.symm.trans hfinds.judge_eq
    exact hfinds
  · cases h.symm.trans hfails.judge_eq

/-- **How an inquiry fails.** -/
theorem judge_eq_error_iff {f : Failure} :
    q.judge o space c = .error f ↔ q.Fails o space c f := by
  refine ⟨fun h => ?_, Fails.judge_eq⟩
  rcases finds_or_fails o space c q with ⟨fs, hfinds⟩ | ⟨g, hfails⟩
  · cases h.symm.trans hfinds.judge_eq
  · cases h.symm.trans hfails.judge_eq
    exact hfails

end Inquiry

/-! ### Inquiries one after the other -/

section Inquire

variable (h : Nat → Cluster (Except Failure)) (o : Options) (space : String)

/-- Make an inquiry: one request. -/
def Inquiry.ask (q : Inquiry) : Asking (List Finding) := fun n => (q.judge o space (h n), n + 1)

theorem Inquiry.runFrom_ask (q : Inquiry) (n : Nat) :
    (q.ask h o space).runFrom n = (q.judge o space (h n), n + 1) := rfl

/-- Make inquiries, one after the other, up to the first failure. -/
def inquire : List Inquiry → Asking (List Finding)
  | [] => pure []
  | q :: qs => do
    let found ← q.ask h o space
    let others ← inquire qs
    return found ++ others

theorem inquire_append (ps qs : List Inquiry) :
    inquire h o space (ps ++ qs) = do
      let found ← inquire h o space ps
      let others ← inquire h o space qs
      return found ++ others := by
  induction ps with
  | nil => simp only [List.nil_append, inquire, pure_bind, bind_pure]
  | cons p ps ih =>
    simp only [List.cons_append, inquire, ih, bind_assoc, pure_bind, List.append_assoc]

theorem inquire_singleton (q : Inquiry) : inquire h o space [q] = q.ask h o space := by
  simp [inquire]

theorem findAll_inTurn (r : Rule) (name : String) (profiles : List String) :
    findAll (.inTurn h) r space (r.qualifierFor o name) (profiles.map fun p => name ++ "-" ++ p) =
      inquire h o space (profiles.map (.variant r name)) := by
  induction profiles with
  | nil => rfl
  | cons p profiles ih =>
    refine Asking.ext fun n => ?_
    rw [List.map_cons, List.map_cons, findAll, inquire, ih, Asking.runFrom_bind,
      Asking.runFrom_bind, Asking.runFrom_get, Inquiry.runFrom_ask, Inquiry.judge]
    rcases (h n).get (r.keyIn space (name ++ "-" ++ p)) with f | _ | x
    · rfl
    · rfl
    · rfl

theorem findNamed_inTurn (r : Rule) (name : String) :
    findNamed (.inTurn h) o r space name =
      inquire h o space (.declared r name :: o.profiles.map (.variant r name)) := by
  rw [inquire, ← findAll_inTurn]
  refine Asking.ext fun n => ?_
  rw [findNamed, Asking.runFrom_bind, Asking.runFrom_bind, Asking.runFrom_get,
    Inquiry.runFrom_ask, Inquiry.judge]
  rcases (h n).get (r.keyIn space name) with f | _ | x
  · rfl
  · cases o.failFast <;> rfl
  · rfl

theorem findLabelled_inTurn (r : Rule) (labels : Labels) :
    findLabelled (.inTurn h) o r space labels = inquire h o space [.labelled r labels] := by
  rw [inquire_singleton]
  refine Asking.ext fun n => ?_
  rw [findLabelled, Asking.runFrom_bind, Asking.runFrom_list, Inquiry.runFrom_ask, Inquiry.judge]
  cases (h n).list (r.scopeIn space) labels with
  | error f => rfl
  | ok listed =>
    simp only [Bool.and_eq_true, List.isEmpty_iff, beq_iff_eq]
    split <;> rfl

/-- **Rules resolve by making their inquiries.** -/
theorem findByAll_inTurn (rules : List Rule) :
    findByAll (.inTurn h) o space rules = inquire h o space (rules.flatMap (Rule.inquiries o)) := by
  induction rules with
  | nil => rfl
  | cons r rules ih =>
    rw [List.flatMap_cons, inquire_append, ← ih, findByAll]
    congr 1
    rw [findBy, Rule.inquiries]
    cases r.selection with
    | named name => exact findNamed_inTurn h o space r name
    | labelled labels => exact findLabelled_inTurn h o space r labels

theorem resolve_inTurn (rules : List Rule) :
    resolve (.inTurn h) o space rules = do
      let fs ← inquire h o space (rules.flatMap (Rule.inquiries o))
      return .ofFindings fs := by
  rw [resolve, findByAll_inTurn]

end Inquire

section Runs

variable {h : Nat → Cluster (Except Failure)} {o : Options} {space : String} {n m : Nat}

/-- Rules resolve to the findings of their inquiries. -/
theorem resolve_inTurn_eq_ok_iff {rules : List Rule} {res : Resolution} :
    (resolve (.inTurn h) o space rules).runFrom n = (.ok res, m) ↔ ∃ fs,
      (inquire h o space (rules.flatMap (Rule.inquiries o))).runFrom n = (.ok fs, m) ∧
        .ofFindings fs = res := by
  rw [resolve_inTurn, Asking.runFrom_bind_eq_ok]
  constructor
  · rintro ⟨fs, _, hfs, hpure⟩
    cases hpure
    exact ⟨fs, hfs, rfl⟩
  · rintro ⟨fs, hfs, rfl⟩
    exact ⟨fs, m, hfs, rfl⟩

/-- Rules fail as their inquiries do. -/
theorem resolve_inTurn_eq_error_iff {rules : List Rule} {f : Failure} :
    (resolve (.inTurn h) o space rules).runFrom n = (.error f, m) ↔
      (inquire h o space (rules.flatMap (Rule.inquiries o))).runFrom n = (.error f, m) := by
  rw [resolve_inTurn, Asking.runFrom_bind_eq_error]
  refine or_iff_left ?_
  rintro ⟨_, _, -, hpure⟩
  cases hpure

theorem inquire_cons_eq_ok_iff {q : Inquiry} {qs : List Inquiry} {gs : List Finding} :
    (inquire h o space (q :: qs)).runFrom n = (.ok gs, m) ↔
      ∃ fs others, q.Finds o space (h n) fs ∧
        (inquire h o space qs).runFrom (n + 1) = (.ok others, m) ∧ fs ++ others = gs := by
  simp only [← Inquiry.judge_eq_ok_iff]
  rw [inquire, Asking.runFrom_bind_eq_ok]
  constructor
  · rintro ⟨fs, n', hask, hrest⟩
    obtain ⟨hjudge, rfl⟩ := Prod.mk.inj hask
    obtain ⟨others, m', hothers, hpure⟩ := Asking.runFrom_bind_eq_ok.mp hrest
    cases hpure
    exact ⟨fs, others, hjudge, hothers, rfl⟩
  · rintro ⟨fs, others, hjudge, hothers, rfl⟩
    refine ⟨fs, n + 1, Prod.ext hjudge rfl, Asking.runFrom_bind_eq_ok.mpr ?_⟩
    exact ⟨others, m, hothers, rfl⟩

theorem inquire_cons_eq_error_iff {q : Inquiry} {qs : List Inquiry} {f : Failure} :
    (inquire h o space (q :: qs)).runFrom n = (.error f, m) ↔
      q.Fails o space (h n) f ∧ m = n + 1 ∨
        (∃ fs, q.Finds o space (h n) fs) ∧
          (inquire h o space qs).runFrom (n + 1) = (.error f, m) := by
  simp only [← Inquiry.judge_eq_ok_iff, ← Inquiry.judge_eq_error_iff]
  rw [inquire, Asking.runFrom_bind_eq_error]
  constructor
  · rintro (hask | ⟨fs, n', hask, hrest⟩)
    · obtain ⟨hjudge, rfl⟩ := Prod.mk.inj hask
      exact Or.inl ⟨hjudge, rfl⟩
    · obtain ⟨hjudge, rfl⟩ := Prod.mk.inj hask
      rcases Asking.runFrom_bind_eq_error.mp hrest with hothers | ⟨_, _, -, hpure⟩
      · exact Or.inr ⟨⟨fs, hjudge⟩, hothers⟩
      · cases hpure
  · rintro (⟨hjudge, rfl⟩ | ⟨⟨fs, hjudge⟩, hothers⟩)
    · exact Or.inl (Prod.ext hjudge rfl)
    · exact Or.inr ⟨fs, n + 1, Prod.ext hjudge rfl,
        Asking.runFrom_bind_eq_error.mpr (Or.inl hothers)⟩

/-- **Inquiries succeed** if each of them finds something or nothing, after as many requests. -/
theorem inquire_eq_ok_iff {qs : List Inquiry} {gs : List Finding} :
    (inquire h o space qs).runFrom n = (.ok gs, m) ↔ m = n + qs.length ∧
      ∃ found, List.Forall₂ (fun p fs => p.1.Finds o space (h p.2) fs) (qs.zipIdx n) found ∧
        found.flatten = gs := by
  induction qs generalizing n gs with
  | nil =>
    rw [inquire, Asking.runFrom_pure, Prod.mk.injEq, List.zipIdx_nil]
    simp only [List.forall₂_nil_left_iff]
    constructor
    · rintro ⟨hgs, rfl⟩
      cases hgs
      exact ⟨rfl, [], rfl, rfl⟩
    · rintro ⟨rfl, _, rfl, rfl⟩
      exact ⟨rfl, rfl⟩
  | cons q qs ih =>
    rw [inquire_cons_eq_ok_iff, List.zipIdx_cons, List.length_cons]
    simp only [ih, List.forall₂_cons_left_iff]
    constructor
    · rintro ⟨fs, _, hfs, ⟨rfl, found, hfound, rfl⟩, rfl⟩
      exact ⟨by omega, _, ⟨fs, found, hfs, hfound, rfl⟩, rfl⟩
    · rintro ⟨rfl, _, ⟨fs, found, hfs, hfound, rfl⟩, rfl⟩
      exact ⟨fs, _, hfs, ⟨by omega, found, hfound, rfl⟩, rfl⟩

/-- **Inquiries fail** as the first of them that fails, and behind it nothing is asked. -/
theorem inquire_eq_error_iff {qs : List Inquiry} {f : Failure} :
    (inquire h o space qs).runFrom n = (.error f, m) ↔ ∃ front q rear, qs = front ++ q :: rear ∧
      m = n + front.length + 1 ∧ q.Fails o space (h (n + front.length)) f ∧
      ∀ p ∈ front.zipIdx n, ∃ fs, p.1.Finds o space (h p.2) fs := by
  induction qs generalizing n with
  | nil =>
    rw [inquire, Asking.runFrom_pure, Prod.mk.injEq]
    simp
  | cons q qs ih =>
    rw [inquire_cons_eq_error_iff, ih]
    constructor
    · rintro (⟨hfails, rfl⟩ | ⟨hfinds, front, p, rear, rfl, rfl, hfails, hfront⟩)
      · exact ⟨[], q, qs, rfl, rfl, hfails, List.forall_mem_nil _⟩
      · refine ⟨q :: front, p, rear, rfl, by rw [List.length_cons]; omega, ?_, ?_⟩
        · rwa [List.length_cons, Nat.add_comm front.length, ← Nat.add_assoc]
        · rw [List.zipIdx_cons]
          exact List.forall_mem_cons.mpr ⟨hfinds, hfront⟩
    · rintro ⟨front, p, rear, hsplit, rfl, hfails, hfront⟩
      cases front with
      | nil =>
        cases hsplit
        exact Or.inl ⟨hfails, rfl⟩
      | cons q' front =>
        obtain ⟨rfl, rfl⟩ := List.cons.inj hsplit
        rw [List.zipIdx_cons, List.forall_mem_cons] at hfront
        rw [List.length_cons, Nat.add_comm front.length, ← Nat.add_assoc] at hfails
        exact Or.inr ⟨hfront.1, front, p, rear, rfl, by rw [List.length_cons]; omega, hfails,
          hfront.2⟩

end Runs

/-! ### The order of listings -/

/-- Objects that are listed in another order, in which a name stands for one object. -/
theorem InOrder.sortByName_of_perm {os os' : List Object} (hperm : os'.Perm os)
    (hnames : ∀ x ∈ os, ∀ y ∈ os, x.key.name = y.key.name → x = y) :
    LiveConfig.sortByName os' = LiveConfig.sortByName os := by
  have hsorted := sortByName os'
  refine eq_of_filter_eq hsorted.ascending (sortByName os).ascending fun name => ?_
  rw [hsorted.stable, (sortByName os).stable]
  have hsame : ∀ x y, x ∈ os'.filter (·.key.name == name) → y ∈ os.filter (·.key.name == name) →
      x = y := by
    intro x y hx hy
    rw [List.mem_filter, beq_iff_eq] at hx hy
    exact hnames x (hperm.mem_iff.mp hx.1) y hy.1 (hx.2.trans hy.2.symm)
  -- All that have the same name are the same, so that any order of them is in order.
  have hordered : ∀ l : List Object, l.Pairwise fun _ _ => True :=
    fun _ => List.pairwise_of_forall fun _ _ => trivial
  exact List.Perm.eq_of_pairwise (fun x y hx hy _ _ => hsame x y hx hy) (hordered _) (hordered _)
    (hperm.filter _)

/-- A cluster answers like another one, but for the order of its listings. In each listing a name
stands for one object. -/
structure Cluster.Relists (c d : Cluster (Except Failure)) : Prop where
  get : ∀ k, d.get k = c.get k
  refused : ∀ scope labels f, c.list scope labels = .error f → d.list scope labels = .error f
  listed : ∀ scope labels os, c.list scope labels = .ok os →
    ∃ os', d.list scope labels = .ok os' ∧ os'.Perm os ∧
      ∀ x ∈ os, ∀ y ∈ os, x.key.name = y.key.name → x = y

theorem Cluster.Relists.judge_eq {c d : Cluster (Except Failure)} (hcd : c.Relists d)
    (o : Options) (space : String) (q : Inquiry) : q.judge o space d = q.judge o space c := by
  cases q with
  | declared r name => rw [Inquiry.judge, Inquiry.judge, hcd.get]
  | variant r name profile => rw [Inquiry.judge, Inquiry.judge, hcd.get]
  | labelled r labels =>
    rw [Inquiry.judge, Inquiry.judge]
    cases hlist : c.list (r.scopeIn space) labels with
    | error f => rw [hcd.refused _ _ _ hlist]
    | ok os =>
      obtain ⟨os', hlist', hperm, hnames⟩ := hcd.listed _ _ _ hlist
      have hnil : os' = [] ↔ os = [] := by
        rw [← List.length_eq_zero_iff, ← List.length_eq_zero_iff, hperm.length_eq]
      rw [hlist']
      simp only [hnil, InOrder.sortByName_of_perm hperm hnames]

theorem inquire_eq_of_relists {h h' : Nat → Cluster (Except Failure)}
    (hh : ∀ i, (h i).Relists (h' i)) (o : Options) (space : String) (qs : List Inquiry) :
    inquire h' o space qs = inquire h o space qs := by
  induction qs with
  | nil => rfl
  | cons q qs ih =>
    have hask : q.ask h' o space = q.ask h o space := by
      refine Asking.ext fun n => ?_
      rw [Inquiry.runFrom_ask, Inquiry.runFrom_ask, (hh n).judge_eq]
    rw [inquire, inquire, hask, ih]

end LiveConfig
