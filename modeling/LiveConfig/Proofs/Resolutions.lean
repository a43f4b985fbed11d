import LiveConfig.Proofs.Building
import LiveConfig.Proofs.Inquiries

/-!
# What rules resolve to, request by request

Rules resolve to the findings of their inquiries, or they fail as the first inquiry that fails. The
layers of a resolution are its findings one by one, and its objects are those of the layers, so that
none of them is missed when a snapshot is built.

## Main definitions

* `Resolution.ConsistsOf` — the findings that a resolution consists of

## Main results

* `Resolution.snapshot_ne_absent` — no object of a layer is missed
* `resolve_iff_answers` — what rules resolve to
-/

namespace LiveConfig

namespace Resolution

/-- A resolution consists of findings: they are its layers, one by one, and of an object that was
found again the last finding is kept. -/
structure ConsistsOf (res : Resolution) (fs : List Finding) : Prop where
  layers : res.layers = fs.map fun f => ⟨f.object.key, f.qualifier⟩
  get? : ∀ k x, res.objects.get? k = some x ↔ ∃ before f after, fs = before ++ f :: after ∧
    f.object.key = k ∧ f.object = x ∧ ∀ g ∈ after, g.object.key ≠ k

theorem consistsOf_ofFindings (fs : List Finding) : (ofFindings fs).ConsistsOf fs where
  layers := rfl
  get? _ _ := SortedMap.get?_ofList_map_iff

theorem ConsistsOf.eq {res : Resolution} {fs : List Finding} (h : res.ConsistsOf fs) :
    res = ofFindings fs := by
  have hobjects : res.objects = (ofFindings fs).objects := SortedMap.ext_get? fun k =>
    Option.ext fun x => (h.get? k x).trans ((consistsOf_ofFindings fs).get? k x).symm
  obtain ⟨layers, objects⟩ := res
  cases h.layers
  cases hobjects
  rfl

/-- It has the objects of its layers, and no others. -/
theorem contains_iff_mem_layers {fs : List Finding} {k : ObjectKey} :
    (ofFindings fs).objects.contains k = true ↔ k ∈ (ofFindings fs).layers.map Layer.key := by
  rw [contains_ofFindings, ofFindings, List.map_map, List.mem_map]
  rfl

/-- No object of a layer is missed when the snapshot is built. -/
theorem snapshot_ne_absent (fs : List Finding) (kind : Kind) (space name : String) :
    (ofFindings fs).snapshot ≠ .error (.absent kind space name) := by
  refine Snapshot.build_ne_absent (fun l hl => ?_) kind space name
  exact contains_iff_mem_layers.mpr (List.mem_map_of_mem hl)

end Resolution

/-- **What rules resolve to**, if one cluster after the other answers, beginning with number `n`.
They resolve if every one of their inquiries finds something or nothing, and then the resolution
consists of all findings in order; or they fail as the first inquiry that fails, and behind it
nothing is asked. If they resolve then the resolution has the objects of its layers, and no others,
so that none is missed when the snapshot is built. Clusters that list in another order make no
difference; and a single cluster that answers all the time may be asked directly. -/
theorem resolve_iff_answers (h : Nat → Cluster (Except Failure)) (o : Options) (space : String)
    (rules : List Rule) (n : Nat) :
    let run := (resolve (.inTurn h) o space rules).runFrom n
    let qs := rules.flatMap (Rule.inquiries o)
    (∀ res m, run = (.ok res, m) ↔ m = n + qs.length ∧
      ∃ found, List.Forall₂ (fun p fs => p.1.Finds o space (h p.2) fs) (qs.zipIdx n) found ∧
        res.ConsistsOf found.flatten) ∧
    (∀ f m, run = (.error f, m) ↔ ∃ front q rear, qs = front ++ q :: rear ∧
      m = n + front.length + 1 ∧ q.Fails o space (h (n + front.length)) f ∧
      ∀ p ∈ front.zipIdx n, ∃ fs, p.1.Finds o space (h p.2) fs) ∧
    (∀ res m, run = (.ok res, m) →
      (∀ k, res.objects.contains k = true ↔ k ∈ res.layers.map Layer.key) ∧
      ∀ kind space' name, res.snapshot ≠ .error (.absent kind space' name)) ∧
    (∀ h', (∀ i, (h i).Relists (h' i)) →
      (resolve (.inTurn h') o space rules).runFrom n = run) ∧
    ∀ c, (∀ i, h i = c) → run.1 = resolve c o space rules := by
  intro run qs
  refine ⟨fun res m => ?_, fun f m => ?_, fun res m hres => ?_, fun h' hh => ?_, fun c hc => ?_⟩
  · simp only [run, resolve_inTurn_eq_ok_iff, inquire_eq_ok_iff]
    constructor
    · rintro ⟨_, ⟨rfl, found, hfound, rfl⟩, rfl⟩
      exact ⟨rfl, found, hfound, Resolution.consistsOf_ofFindings _⟩
    · rintro ⟨rfl, found, hfound, hres⟩
      exact ⟨_, ⟨rfl, found, hfound, rfl⟩, hres.eq.symm⟩
  · exact resolve_inTurn_eq_error_iff.trans inquire_eq_error_iff
  · obtain ⟨fs, -, rfl⟩ := resolve_inTurn_eq_ok_iff.mp hres
    exact ⟨fun _ => Resolution.contains_iff_mem_layers, Resolution.snapshot_ne_absent fs⟩
  · simp only [run, resolve_inTurn, inquire_eq_of_relists hh]
  · exact (resolve_actsAs h c o space rules n).2 fun i _ _ => hc i

/-- A cluster that has every object but `gone`, and that lists objects with the given names. -/
def Cluster.listing (names : List String) : Cluster (Except Failure) where
  get k := .ok (if k.name = "gone" then none else some ⟨k, ∅, ∅, ""⟩)
  list scope _ := .ok (names.map fun name => ⟨⟨scope.kind, scope.space, name⟩, ∅, ∅, ""⟩)

/-- An object, its variant and two more objects are found, in whichever order these are listed; and
an object that does not exist is not looked for any further. -/
theorem resolve_iff_answers_listing :
    let o : Options := ⟨true, .fail, true, ["dev"]⟩
    let app : Rule := ⟨.configMap, .named "app", none, none, none⟩
    let gone : Rule := ⟨.secret, .named "gone", none, none, some "other"⟩
    let parts : Rule := ⟨.configMap, .labelled ∅, some false, some "", none⟩
    let c : Cluster (Except Failure) := .listing ["b", "a"]
    let key : String → ObjectKey := fun name => ⟨.configMap, "ns", name⟩
    ∃ res, (resolve (.inTurn fun _ => c) o "ns" [app, parts]).runFrom 0 = (.ok res, 3) ∧
      res.layers = [⟨key "app", some "app"⟩, ⟨key "app-dev", some "app"⟩, ⟨key "a", none⟩,
        ⟨key "b", none⟩] ∧
      res.objects.contains (key "b") = true ∧ res.snapshot ≠ .error (.absent .configMap "ns" "b") ∧
      (∀ _ : Nat, c.Relists (.listing ["a", "b"])) ∧
      (resolve (.inTurn fun _ => .listing ["a", "b"]) o "ns" [app, parts]).runFrom 0 =
        (.ok res, 3) ∧
      resolve c o "ns" [app, parts] = .ok res ∧
      (resolve (.inTurn fun _ => c) o "ns" [gone, app]).runFrom 0 =
        (.error (.absent .secret "other" "gone"), 1) := by
  intro o app gone parts c key
  obtain ⟨hok, -, hwhole, hrelists, hsingle⟩ :=
    resolve_iff_answers (fun _ => c) o "ns" [app, parts] 0
  obtain ⟨-, herror, -⟩ := resolve_iff_answers (fun _ => c) o "ns" [gone, app] 0
  have hnone : ∀ q, parts.qualifier = some q → q = "" := by
    intro q hq
    exact (Option.some.inj hq).symm
  have horder : InOrder [⟨key "b", ∅, ∅, ""⟩, ⟨key "a", ∅, ∅, ""⟩]
      [⟨key "a", ∅, ∅, ""⟩, ⟨key "b", ∅, ∅, ""⟩] := by
    refine ⟨.swap _ _ _, by decide, fun name => ?_⟩
    by_cases ha : "a" = name
    · subst ha
      rfl
    · simp [key, List.filter_cons, ha]
  have hplain : ∀ f ∈ [(⟨⟨key "a", ∅, ∅, ""⟩, none⟩ : Finding), ⟨⟨key "b", ∅, ∅, ""⟩, none⟩],
      parts.Qualifies o f.object.key.name f.qualifier := by
    simp only [List.forall_mem_cons]
    exact ⟨.plain hnone (Or.inl rfl), .plain hnone (Or.inl rfl), nofun⟩
  have hrun := (hok _ 3).mpr ⟨rfl,
    [[⟨⟨key "app", ∅, ∅, ""⟩, some "app"⟩], [⟨⟨key "app-dev", ∅, ∅, ""⟩, some "app"⟩],
      [⟨⟨key "a", ∅, ∅, ""⟩, none⟩, ⟨⟨key "b", ∅, ∅, ""⟩, none⟩]],
    .cons (.present rfl (.byName nofun (Or.inr ⟨rfl, rfl⟩)))
      (.cons (.variant rfl (.byName nofun (Or.inr ⟨rfl, rfl⟩)))
        (.cons (.listed rfl nofun horder hplain) .nil)),
    Resolution.consistsOf_ofFindings _⟩
  have hshuffled : ∀ _ : Nat, c.Relists (.listing ["a", "b"]) := by
    refine fun _ => ⟨fun _ => rfl, nofun, fun scope labels os hos => ?_⟩
    cases hos
    refine ⟨_, rfl, .swap _ _ _, ?_⟩
    simp
  have hgone := (herror _ 1).mpr ⟨[], .declared gone "gone", _, rfl, rfl, .absent rfl rfl,
    List.forall_mem_nil _⟩
  exact ⟨_, hrun, rfl, ((hwhole _ _ hrun).1 _).mpr (by decide), (hwhole _ _ hrun).2 _ _ _,
    hshuffled, (hrelists _ hshuffled).trans hrun,
    (hsingle c fun _ => rfl).symm.trans (congrArg Prod.fst hrun), hgone⟩

end LiveConfig
