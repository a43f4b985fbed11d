import LiveConfig.Proofs.Answers

/-!
# Changes of concern

What rules resolve to depends on a few objects of a store only. The interest of a resolution is
meant to be in all of them, and in all that could come to be among them: names that are asked for in
vain, variants, objects that begin to carry the labels of a selector, that cease to carry them, or
that are deleted, when no labels are known. So whoever looks at a changed store and finds no
difference of concern may conclude that the rules still resolve to the same.

Stores are compared directly, with any number of changes between them; how the second came about
does not matter.

## Main results

* `resolve_eq_of_covers` — stores that agree on all that is of concern resolve to the same
* `exists_covered_change` — where two stores do not, an object of concern has changed
-/

namespace LiveConfig

variable {s t : Store} {o : Options} {space : String} {rules : List Rule} {res : Resolution}

/-- A second store that agrees on all that is of concern resolves to the same as the first. -/
theorem resolve_eq_of_covers (hs : s.Keyed) (ht : t.Keyed)
    (hres : resolve s.cluster o space rules = .ok res)
    (hsame : ∀ k, (Interest.ofRules o space rules res).covers k
      ((t.objects.get? k).map Object.labels) = true → s.objects.get? k = t.objects.get? k) :
    resolve t.cluster o space rules = .ok res := by
  have hover : resolvedOver (fun _ => s) o space rules = .ok res :=
    (resolvedOver_const s o space rules).trans hres
  have hfound : ∀ k, res.objects.contains k = true →
      (Interest.ofRules o space rules res).keys.contains k = true :=
    fun k hk => Interest.contains_ofRules o space rules hk
  have hagrees : Agrees (fun _ => s) t (Interest.ofRules o space rules res) := by
    refine ⟨fun _ => hs, ht, ?_⟩
    intro _ k x hx hk
    rw [hsame k (by rw [hx]; exact hk), hx]
  refine hagrees.resolve_eq (fun r hr => Interest.declares_ofRules hr res) hover hfound ?_
  -- nothing that was found is lost: it is of concern by its key, whatever became of its labels
  intro k hk
  obtain ⟨_, hheld⟩ := exists_contains_of_resolvedOver (fun _ => hs) hover hk
  have hk' := hsame k (Interest.covers_of_key (hfound k hk) _)
  rwa [SortedMap.contains, ← hk']

/-- **No change outside the interest matters.** If the rules resolve in a first store, and in a
second one not to the same, then there is an object that differs between the two and that is of
concern as the second store has it: with its labels there, or by its key alone if it is gone. -/
theorem exists_covered_change (hs : s.Keyed) (ht : t.Keyed)
    (hres : resolve s.cluster o space rules = .ok res)
    (hother : resolve t.cluster o space rules ≠ .ok res) :
    ∃ k, s.objects.get? k ≠ t.objects.get? k ∧ (Interest.ofRules o space rules res).covers k
      ((t.objects.get? k).map Object.labels) = true := by
  refine Classical.byContradiction fun hnone => ?_
  refine hother (resolve_eq_of_covers hs ht hres ?_)
  intro k hk
  exact Decidable.byContradiction fun hdiffers => hnone ⟨k, hdiffers, hk⟩

/-- A store with a secret that was labelled with one letter after the other. -/
def lettered (letters : List String) : Store :=
  .after (letters.map fun l =>
    .put ⟨.secret, "ns", "app"⟩ (.ofList [("letter", l)]) (.ofList [("a", "1")]))

/-- A rule for the secrets with a letter. -/
def letterRule (letter : String) : Rule :=
  ⟨.secret, .labelled (.ofList [("letter", letter)]), none, none, none⟩

theorem resolve_letterRule (s : Store) (letter : String) :
    resolve s.cluster .standard "ns" [letterRule letter] =
      .ok (.ofFindings ((sortByName (s.select ⟨.secret, "ns"⟩ (.ofList [("letter", letter)]))).map
        (⟨·, none⟩))) := by
  have hfound : findBy s.cluster .standard "ns" (letterRule letter) =
      .ok ((sortByName (s.select ⟨.secret, "ns"⟩ (.ofList [("letter", letter)]))).map
        (⟨·, none⟩)) := by
    refine bind_eq_ok.mpr ⟨_, rfl, ?_⟩
    -- nothing has to be selected
    rw [if_neg (by simp [Options.standard])]
    rfl
  exact bind_eq_ok.mpr ⟨_, bind_eq_ok.mpr ⟨_, hfound, rfl⟩, by rw [List.append_nil]; rfl⟩

/-- A secret that no longer carries the labels of a selector is of concern by its key. -/
theorem exists_covered_change_relabelled :
    ∃ res, (lettered ["c"]).Keyed ∧ (lettered ["c", "d"]).Keyed ∧
      resolve (lettered ["c"]).cluster .standard "ns" [letterRule "c"] = .ok res ∧
      resolve (lettered ["c", "d"]).cluster .standard "ns" [letterRule "c"] ≠ .ok res ∧
      ∃ k, (lettered ["c"]).objects.get? k ≠ (lettered ["c", "d"]).objects.get? k ∧
        (Interest.ofRules .standard "ns" [letterRule "c"] res).covers k
          (((lettered ["c", "d"]).objects.get? k).map Object.labels) = true := by
  have hs : (lettered ["c"]).Keyed := (Store.sound_after _).keyed
  have ht : (lettered ["c", "d"]).Keyed := (Store.sound_after _).keyed
  have hselected : (lettered ["c"]).select ⟨.secret, "ns"⟩ (.ofList [("letter", "c")]) =
      [⟨⟨.secret, "ns", "app"⟩, .ofList [("letter", "c")], .ofList [("a", "MQ==")], "1"⟩] := rfl
  have hnone : (lettered ["c", "d"]).select ⟨.secret, "ns"⟩ (.ofList [("letter", "c")]) = [] := rfl
  have hres : resolve (lettered ["c"]).cluster .standard "ns" [letterRule "c"] =
      .ok (.ofFindings [⟨⟨⟨.secret, "ns", "app"⟩, .ofList [("letter", "c")],
        .ofList [("a", "MQ==")], "1"⟩, none⟩]) := by
    rw [resolve_letterRule, hselected, sortByName, List.mergeSort_singleton]
    rfl
  have hother : resolve (lettered ["c", "d"]).cluster .standard "ns" [letterRule "c"] =
      .ok (.ofFindings []) := by
    rw [resolve_letterRule, hnone, sortByName, List.mergeSort_nil]
    rfl
  refine ⟨_, hs, ht, hres, ?_, exists_covered_change hs ht hres ?_⟩
  all_goals
    rw [hother]
    exact fun h => nomatch congrArg Resolution.layers (Except.ok.inj h)

end LiveConfig
