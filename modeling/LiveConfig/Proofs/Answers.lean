import LiveConfig.Proofs.Inquiries
import LiveConfig.Proofs.Interest
import LiveConfig.Proofs.StoreHistory

/-!
# Resolution over a history

While rules are resolved the store may change, so that every request is answered by a store of its
own. What the rules resolve to is then still the answer of one later store, provided that this store
holds nothing of interest that the earlier ones did not hold, and has lost nothing that was found.
The first alone suffices for success: what a later store resolves, the earlier ones resolved.

A resolution is told from the answers to its inquiries, so stores are compared on single inquiries
only.

## Main definitions

* `resolvedOver` — what rules resolve to over a history
* `Interest.Heeds` — an interest is in what an inquiry asks for
* `Agrees` — a later store holds nothing of interest that a history did not hold

## Main results

* `Agrees.not_fails`, `Agrees.finds` — a later store compared with one that answered an inquiry
* `Agrees.resolvedOver_succeeds` — where the later store succeeds, the history did
* `Agrees.resolve_eq` — what the history resolved to is what the later store resolves to
* `resolvedOver_const` — a history in which nothing happens is its store
-/

namespace LiveConfig

/-- What rules resolve to if requests are answered by one store after the other. -/
def resolvedOver (h : Nat → Store) (o : Options) (space : String) (rules : List Rule) :
    Except Failure Resolution :=
  ((resolve (.inTurn fun n => (h n).cluster) o space rules).runFrom 0).1

/-- **A history in which nothing happens resolves to what its store resolves to.** -/
theorem resolvedOver_const (s : Store) (o : Options) (space : String) (rules : List Rule) :
    resolvedOver (fun _ => s) o space rules = resolve s.cluster o space rules :=
  (resolve_actsAs (fun _ => s.cluster) s.cluster o space rules 0).2 fun _ _ _ => rfl

theorem resolvedOver_eq_ok {h : Nat → Store} {o : Options} {space : String} {rules : List Rule}
    {res : Resolution} : resolvedOver h o space rules = .ok res ↔
      ∃ fs m, (inquire (fun n => (h n).cluster) o space
        (rules.flatMap (Rule.inquiries o))).runFrom 0 = (.ok fs, m) ∧ .ofFindings fs = res := by
  constructor
  · intro hres
    obtain ⟨fs, hfs, rfl⟩ := resolve_inTurn_eq_ok_iff.mp (Prod.ext hres rfl)
    exact ⟨fs, _, hfs, rfl⟩
  · rintro ⟨fs, m, hfs⟩
    exact congrArg Prod.fst (resolve_inTurn_eq_ok_iff.mpr ⟨fs, hfs⟩)

/-! ### What inquiries ask for -/

/-- An interest is in what an inquiry asks for. -/
def Interest.Heeds (i : Interest) (space : String) : Inquiry → Prop
  | .declared r name => i.keys.contains (r.keyIn space name) = true
  | .variant r name profile => i.keys.contains (r.keyIn space (name ++ "-" ++ profile)) = true
  | .labelled r labels => ⟨r.scopeIn space, labels⟩ ∈ i.selectors

/-- An interest that is in all that rules can ask for is in what their inquiries ask for. -/
theorem Interest.heeds_of_declares {i : Interest} {o : Options} {space : String}
    {rules : List Rule} (h : ∀ r ∈ rules, i.Declares o space r) :
    ∀ q ∈ rules.flatMap (Rule.inquiries o), i.Heeds space q := by
  intro q hq
  obtain ⟨r, hr, hq⟩ := List.mem_flatMap.mp hq
  have hdeclares := h r hr
  cases hsel : r.selection with
  | named name =>
    simp only [Rule.inquiries, Declares, hsel] at hq hdeclares
    rcases List.mem_cons.mp hq with rfl | hq
    · exact hdeclares name List.mem_cons_self
    · obtain ⟨profile, hprofile, rfl⟩ := List.mem_map.mp hq
      exact hdeclares _ (List.mem_cons_of_mem _ (List.mem_map_of_mem hprofile))
  | labelled labels =>
    simp only [Rule.inquiries, Declares, hsel] at hq hdeclares
    rw [List.mem_singleton.mp hq]
    exact hdeclares

/-- What is found in a store is there. -/
theorem Inquiry.Finds.get?_eq {o : Options} {space : String} {s : Store} {q : Inquiry}
    {fs : List Finding} (h : q.Finds o space s.cluster fs) (hs : s.Keyed) :
    ∀ f ∈ fs, s.objects.get? f.object.key = some f.object := by
  intro f hf
  rcases h with ⟨hget, -⟩ | - | ⟨hget, -⟩ | - | ⟨hlist, -, horder, -⟩
  · rw [List.mem_singleton.mp hf, hs (Except.ok.inj hget), Except.ok.inj hget]
  · cases hf
  · rw [List.mem_singleton.mp hf, hs (Except.ok.inj hget), Except.ok.inj hget]
  · cases hf
  · have hlisted := horder.perm.mem_iff.mp (List.mem_map_of_mem hf)
    rw [← Except.ok.inj hlist, Store.select, List.mem_filter,
      Store.mem_objectsIn_iff hs] at hlisted
    exact hlisted.1.1

/-! ### What a history and a later store agree on -/

/-- A later store holds nothing of interest that a history did not hold, object by object. -/
structure Agrees (h : Nat → Store) (s : Store) (i : Interest) : Prop where
  history : ∀ n, (h n).Keyed
  keyed : s.Keyed
  fresh : ∀ n {k x}, s.objects.get? k = some x → i.covers k (some x.labels) = true →
    (h n).objects.get? k = some x

namespace Agrees

variable {h : Nat → Store} {s : Store} {i : Interest}

/-- Of an object of interest that was not lost, the later store has what the history had. -/
theorem get?_eq (ha : Agrees h s i) {k : ObjectKey} (hk : i.keys.contains k = true) {n : Nat}
    (hlost : ∀ x, (h n).objects.get? k = some x → s.objects.contains k = true) :
    s.objects.get? k = (h n).objects.get? k := by
  cases hs : s.objects.get? k with
  | some x => exact (ha.fresh n hs (Interest.covers_of_key hk _)).symm
  | none =>
    cases hn : (h n).objects.get? k with
    | none => rfl
    | some x => simp [SortedMap.contains, hs] at hlost hn; exact absurd hn (hlost x)

/-- What the later store selects, the history selected. -/
theorem mem_select (ha : Agrees h s i) {scope : Scope} {labels : Labels}
    (hsel : ⟨scope, labels⟩ ∈ i.selectors) (n : Nat) {x : Object}
    (hx : x ∈ s.select scope labels) : x ∈ (h n).select scope labels := by
  rw [Store.select, List.mem_filter, Store.mem_objectsIn_iff ha.keyed] at hx
  obtain ⟨⟨hget, hscope⟩, hlabels⟩ := hx
  rw [Store.select, List.mem_filter, Store.mem_objectsIn, SortedMap.mem_values]
  refine ⟨⟨⟨x.key, ?_⟩, hscope⟩, hlabels⟩
  exact ha.fresh n hget (Interest.covers_iff.mpr (Or.inr ⟨_, hsel, hscope.symm, hlabels⟩))

/-- If nothing that was selected is lost, the later store selects the same. -/
theorem select_eq (ha : Agrees h s i) {scope : Scope} {labels : Labels}
    (hsel : ⟨scope, labels⟩ ∈ i.selectors) {n : Nat}
    (hlost : ∀ x ∈ (h n).select scope labels,
      i.keys.contains x.key = true ∧ s.objects.contains x.key = true) :
    s.select scope labels = (h n).select scope labels := by
  have hmap : ∀ t : Store, t.select scope labels =
      (t.objects.filter fun _ x => x.key.scope == scope && labels.subset x.labels).values := by
    intro t
    rw [SortedMap.values_filter, Store.select, Store.objectsIn, List.filter_filter]
    exact List.filter_congr fun x _ => Bool.and_comm _ _
  rw [hmap, hmap]
  refine congrArg _ (SortedMap.ext_get? fun k => Option.ext fun x => ?_)
  rw [SortedMap.get?_filter, SortedMap.get?_filter, Option.filter_eq_some_iff,
    Option.filter_eq_some_iff]
  refine and_congr_left fun hp => ⟨fun hs => ?_, fun hn => ?_⟩
  · obtain rfl := ha.keyed hs
    rw [Bool.and_eq_true, beq_iff_eq] at hp
    exact ha.fresh n hs (Interest.covers_iff.mpr (Or.inr ⟨_, hsel, hp.1.symm, hp.2⟩))
  · obtain rfl := ha.history n hn
    rw [Bool.and_eq_true, beq_iff_eq] at hp
    have hmem : x ∈ (h n).select scope labels := by
      rw [Store.select, List.mem_filter, Store.mem_objectsIn, SortedMap.mem_values]
      exact ⟨⟨⟨x.key, hn⟩, hp.1⟩, hp.2⟩
    obtain ⟨hkey, hkept⟩ := hlost x hmem
    rw [ha.get?_eq hkey fun _ _ => hkept, hn]

end Agrees

/-! ### One inquiry -/

namespace Agrees

variable {h : Nat → Store} {s : Store} {i : Interest} {o : Options} {space : String} {q : Inquiry}

/-- What is found is still there, and of interest. -/
def Kept (s : Store) (i : Interest) (fs : List Finding) : Prop :=
  ∀ f ∈ fs, i.keys.contains f.object.key = true ∧ s.objects.contains f.object.key = true

/-- An inquiry by which the later store finds something or nothing did not fail. -/
theorem not_fails (ha : Agrees h s i) (hq : i.Heeds space q) {fs : List Finding}
    (hfs : q.Finds o space s.cluster fs) (n : Nat) (f : Failure) :
    ¬ q.Fails o space (h n).cluster f := by
  intro hfails
  cases hfails with
  | declared hget => cases hget
  | variant hget => cases hget
  | labelled hlist => cases hlist
  | absent hget hfail =>
    cases hfs with
    | present hpresent =>
      have hhad := ha.fresh n (Except.ok.inj hpresent) (Interest.covers_of_key hq _)
      rw [Except.ok.inj hget] at hhad
      cases hhad
    | skipped hnone hskip =>
      rw [hfail] at hskip
      cases hskip
  | @noneSelected r labels hlist hfail =>
    have hempty : (h n).select (r.scopeIn space) labels = [] := Except.ok.inj hlist
    cases hfs with
    | @listed _ _ listed _ hlisted hproceed =>
      have hnone : listed = [] := by
        refine List.eq_nil_iff_forall_not_mem.mpr fun x hx => ?_
        rw [← Except.ok.inj hlisted] at hx
        exact List.not_mem_nil (hempty ▸ ha.mem_select hq n hx)
      rw [hproceed hnone] at hfail
      cases hfail

theorem exists_finds (ha : Agrees h s i) (hq : i.Heeds space q) {fs : List Finding}
    (hfs : q.Finds o space s.cluster fs) (n : Nat) : ∃ gs, q.Finds o space (h n).cluster gs := by
  rcases Inquiry.finds_or_fails o space (h n).cluster q with hfinds | ⟨f, hfails⟩
  · exact hfinds
  · exact absurd hfails (ha.not_fails hq hfs n f)

/-- By an inquiry of which nothing is lost, the later store finds the same. -/
theorem finds (ha : Agrees h s i) (hq : i.Heeds space q) {n : Nat} {fs : List Finding}
    (hfs : q.Finds o space (h n).cluster fs) (hkept : Kept s i fs) :
    q.Finds o space s.cluster fs := by
  -- what is found by a key keeps it, so that the later store still has it
  have hget : ∀ {k : ObjectKey} {x : Object} {p : Option String},
      (h n).cluster.get k = .ok (some x) → fs = [⟨x, p⟩] → s.cluster.get k = .ok (some x) := by
    rintro k x p hhad rfl
    obtain ⟨hkey, hstill⟩ := hkept _ List.mem_cons_self
    have hx : (h n).objects.get? k = some x := Except.ok.inj hhad
    obtain rfl : x.key = k := ha.history n hx
    exact congrArg Except.ok ((ha.get?_eq hkey fun _ _ => hstill).trans hx)
  have hnone : ∀ {k : ObjectKey}, i.keys.contains k = true →
      (h n).cluster.get k = .ok none → s.cluster.get k = .ok none := by
    intro k hk hhad
    have hx : (h n).objects.get? k = none := Except.ok.inj hhad
    refine congrArg Except.ok ((ha.get?_eq hk fun x hx' => ?_).trans hx)
    rw [hx] at hx'
    cases hx'
  cases hfs with
  | present hhad hqualifies => exact .present (hget hhad rfl) hqualifies
  | skipped hhad hskip => exact .skipped (hnone hq hhad) hskip
  | variant hhad hqualifies => exact .variant (hget hhad rfl) hqualifies
  | noVariant hhad => exact .noVariant (hnone hq hhad)
  | listed hlist hproceed horder hqualifies =>
    have hselect := ha.select_eq hq (n := n) fun x hx => by
      have hlisted := horder.perm.mem_iff.mpr (Except.ok.inj hlist ▸ hx)
      obtain ⟨f, hf, rfl⟩ := List.mem_map.mp hlisted
      exact hkept f hf
    refine .listed ?_ hproceed horder hqualifies
    rw [← hlist]
    exact congrArg Except.ok hselect

end Agrees

/-! ### What rules resolve to -/

section Inquire

variable {h : Nat → Store} {s : Store} {i : Interest} {o : Options} {space : String}
  {qs : List Inquiry} {n m : Nat} {fs : List Finding}

/-- Whatever is found, a store of the history held. -/
theorem get?_of_inquire (hh : ∀ n, (h n).Keyed)
    (hfs : (inquire (fun n => (h n).cluster) o space qs).runFrom n = (.ok fs, m)) :
    ∀ f ∈ fs, ∃ n, (h n).objects.get? f.object.key = some f.object := by
  induction qs generalizing n fs with
  | nil =>
    cases hfs
    intro f hf
    cases hf
  | cons q qs ih =>
    obtain ⟨found, others, hfound, hothers, rfl⟩ := inquire_cons_eq_ok_iff.mp hfs
    refine List.forall_mem_append.mpr ⟨fun f hf => ?_, ih hothers⟩
    exact ⟨n, hfound.get?_eq (hh n) f hf⟩

namespace Agrees

theorem inquire_succeeds (ha : Agrees h s i) (hqs : ∀ q ∈ qs, i.Heeds space q)
    (hfs : (inquire (fun _ => s.cluster) o space qs).runFrom n = (.ok fs, m)) :
    ∃ gs, (inquire (fun n => (h n).cluster) o space qs).runFrom n = (.ok gs, m) := by
  induction qs generalizing n fs with
  | nil =>
    cases hfs
    exact ⟨[], rfl⟩
  | cons q qs ih =>
    obtain ⟨hq, hqs⟩ := List.forall_mem_cons.mp hqs
    obtain ⟨found, others, hfound, hothers, -⟩ := inquire_cons_eq_ok_iff.mp hfs
    obtain ⟨found', hfound'⟩ := ha.exists_finds hq hfound n
    obtain ⟨others', hothers'⟩ := ih hqs hothers
    exact ⟨_, inquire_cons_eq_ok_iff.mpr ⟨found', others', hfound', hothers', rfl⟩⟩

theorem inquire_eq (ha : Agrees h s i) (hqs : ∀ q ∈ qs, i.Heeds space q)
    (hfs : (inquire (fun n => (h n).cluster) o space qs).runFrom n = (.ok fs, m))
    (hkept : Kept s i fs) :
    (inquire (fun _ => s.cluster) o space qs).runFrom n = (.ok fs, m) := by
  induction qs generalizing n fs with
  | nil => exact hfs
  | cons q qs ih =>
    obtain ⟨hq, hqs⟩ := List.forall_mem_cons.mp hqs
    obtain ⟨found, others, hfound, hothers, rfl⟩ := inquire_cons_eq_ok_iff.mp hfs
    obtain ⟨hkept₁, hkept₂⟩ := List.forall_mem_append.mp hkept
    exact inquire_cons_eq_ok_iff.mpr
      ⟨found, others, ha.finds hq hfound hkept₁, ih hqs hothers hkept₂, rfl⟩

end Agrees

end Inquire

theorem Resolution.contains_ofFindings (fs : List Finding) (k : ObjectKey) :
    (Resolution.ofFindings fs).objects.contains k = true ↔ ∃ f ∈ fs, f.object.key = k := by
  rw [Resolution.ofFindings, SortedMap.contains_ofList, List.map_map, List.mem_map]
  rfl

namespace Agrees

variable {h : Nat → Store} {s : Store} {i : Interest} {o : Options} {space : String}
  {rules : List Rule}

/-- **What a later store resolves, the history resolved**, if the store holds nothing of interest
that the history did not hold. -/
theorem resolvedOver_succeeds (ha : Agrees h s i) (hrules : ∀ r ∈ rules, i.Declares o space r)
    {res : Resolution} (hres : resolve s.cluster o space rules = .ok res) :
    ∃ res', resolvedOver h o space rules = .ok res' := by
  rw [← resolvedOver_const, resolvedOver_eq_ok] at hres
  obtain ⟨fs, m, hfs, -⟩ := hres
  obtain ⟨gs, hgs⟩ := ha.inquire_succeeds (Interest.heeds_of_declares hrules) hfs
  exact ⟨_, resolvedOver_eq_ok.mpr ⟨gs, m, hgs, rfl⟩⟩

/-- **What the history resolved to, the later store resolves to**, if moreover nothing of what was
found is lost. -/
theorem resolve_eq (ha : Agrees h s i) (hrules : ∀ r ∈ rules, i.Declares o space r)
    {res : Resolution} (hres : resolvedOver h o space rules = .ok res)
    (hfound : ∀ k, res.objects.contains k = true → i.keys.contains k = true)
    (hkept : ∀ k, res.objects.contains k = true → s.objects.contains k = true) :
    resolve s.cluster o space rules = .ok res := by
  obtain ⟨fs, m, hfs, rfl⟩ := resolvedOver_eq_ok.mp hres
  have hfs' := ha.inquire_eq (Interest.heeds_of_declares hrules) hfs fun f hf => by
    have hf' := (Resolution.contains_ofFindings fs f.object.key).mpr ⟨f, hf, rfl⟩
    exact ⟨hfound _ hf', hkept _ hf'⟩
  rw [← resolvedOver_const]
  exact resolvedOver_eq_ok.mpr ⟨fs, m, hfs', rfl⟩

end Agrees

/-- Whatever was found was there when it was asked for. -/
theorem exists_contains_of_resolvedOver {h : Nat → Store} (hh : ∀ n, (h n).Keyed) {o : Options}
    {space : String} {rules : List Rule} {res : Resolution}
    (hres : resolvedOver h o space rules = .ok res) {k : ObjectKey}
    (hk : res.objects.contains k = true) : ∃ n, (h n).objects.contains k = true := by
  obtain ⟨fs, m, hfs, rfl⟩ := resolvedOver_eq_ok.mp hres
  obtain ⟨f, hf, rfl⟩ := (Resolution.contains_ofFindings fs k).mp hk
  obtain ⟨n, hn⟩ := get?_of_inquire hh hfs f hf
  exact ⟨n, SortedMap.contains_iff.mpr ⟨_, hn⟩⟩

end LiveConfig
