import InstanceRegistry.Proofs.Teardown.Postorder

/-!
Destructions of registries that differ in their names. Of two registries whose dependents and
contents correspond one to one, name by name and in the same order, the destructions of names that
correspond take the same course. Only a name with a disposer must correspond to itself.

* `Registry.Corresponds`: registries along a correspondence of names;
* `Task.Corresponds`: tasks about corresponding names;
* `Registry.Corresponds.perform`: what one task keeps;
* `Clears.disposing_eq`: the disposers of a destruction;
* `destroy_corresponds`: what two destructions run.
-/

namespace InstanceRegistry

variable {S : Setup} {caller : Caller S} {r : S.Index} {ρ : Name → Name → Prop}

/-! ### Registries along a correspondence -/

/-- Names that correspond have dependents and contents that correspond, in the same order, and the
same disposer, which only a name that corresponds to itself may have. -/
structure Registry.Corresponds (ρ : Name → Name → Prop) (g h : Registry S) : Prop where
  dependents {a b : Name} (hab : ρ a b) : List.Forall₂ ρ (g.dependentsOf a) (h.dependentsOf b)
  contents {a b : Name} (hab : ρ a b) : List.Forall₂ ρ (g.containedIn a) (h.containedIn b)
  disposer {a b : Name} (hab : ρ a b) : g.disposers.get? a = h.disposers.get? b
  own {a b : Name} (hab : ρ a b) (hmem : (g.disposers.get? a).isSome) : a = b

/-- The tasks are parts of the destructions of names that correspond. -/
inductive Task.Corresponds (ρ : Name → Name → Prop) : Task S → Task S → Prop
  | destroy {a b : Name} (h : ρ a b) : Corresponds ρ (.destroy a) (.destroy b)
  | dispose (name : Name) (disposer : S.Disposer) :
      Corresponds ρ (.dispose name disposer) (.dispose name disposer)
  | destroyContents {a b : Name} (h : ρ a b) :
      Corresponds ρ (.destroyContents a) (.destroyContents b)
  | forget {a b : Name} (h : ρ a b) : Corresponds ρ (.forget a) (.forget b)

namespace Registry.Corresponds

variable {g h : Registry S} {a b : Name} {t u : Task S}

/-- Names that are destroyed begin with tasks that correspond. -/
lemma answer_beginDestroy (hg : g.Corresponds ρ h) (hab : ρ a b) :
    List.Forall₂ (Task.Corresponds ρ) (g.beginDestroy a).answer (h.beginDestroy b).answer := by
  have hfirst : List.Forall₂ (Task.Corresponds (S := S) ρ) ((g.dependentsOf a).map .destroy)
      ((h.dependentsOf b).map .destroy) :=
    List.rel_map (fun _ _ => .destroy) (hg.dependents hab)
  have hown : List.Forall₂ (Task.Corresponds ρ)
      ((g.disposers.get? a).toList.map (Task.dispose a))
      ((h.disposers.get? b).toList.map (Task.dispose b)) := by
    rw [← hg.disposer hab]
    cases hd : g.disposers.get? a with
    | none => exact .nil
    | some disposer =>
        obtain rfl : a = b := hg.own hab (by rw [hd]; rfl)
        exact .cons (.dispose a disposer) .nil
  have hlast : List.Forall₂ (Task.Corresponds (S := S) ρ) [.destroyContents a, .forget a]
      [.destroyContents b, .forget b] :=
    .cons (.destroyContents hab) (.cons (.forget hab) .nil)
  exact List.rel_append (List.rel_append hfirst hown) hlast

/-- Tasks that correspond are followed by tasks that correspond. -/
lemma answer_perform (hg : g.Corresponds ρ h) (ht : Task.Corresponds ρ t u) :
    List.Forall₂ (Task.Corresponds ρ) (g.perform t).answer (h.perform u).answer := by
  cases ht with
  | destroy hab => exact hg.answer_beginDestroy hab
  | destroyContents hab => exact List.rel_map (fun _ _ => .destroy) (hg.contents hab)
  | _ => exact .nil

/-- Tasks that correspond leave registries that correspond. -/
lemma perform (hρ : Relator.BiUnique ρ) (hg : g.Corresponds ρ h) (ht : Task.Corresponds ρ t u) :
    (g.perform t).registry.Corresponds ρ (h.perform u).registry := by
  -- a name is the one that the first task is about just if its partner is that of the second one
  have hsame : ∀ {a b x y : Name}, ρ a b → ρ x y → (x = a ↔ y = b) := fun hab hxy =>
    ⟨fun e => hρ.2 hxy (e ▸ hab), fun e => hρ.1 hxy (e ▸ hab)⟩
  cases ht with
  | @destroy a b hab =>
      refine ⟨fun {x y} hxy => ?_, hg.contents, fun {x y} hxy => ?_, fun {x y} hxy hmem => ?_⟩
      · simp only [Registry.perform, Registry.beginDestroy, Registry.dependentsOf,
          Relations.takeDependents, NameGraph.successors_erase, hsame hab hxy]
        split
        · exact .nil
        · exact hg.dependents hxy
      · simp only [Registry.perform, Registry.beginDestroy, NameMap.get?_erase, hsame hab hxy,
          hg.disposer hxy]
      · simp only [Registry.perform, Registry.beginDestroy, NameMap.get?_erase] at hmem
        split at hmem
        · cases hmem
        · exact hg.own hxy hmem
  | dispose name disposer => exact hg
  | @destroyContents a b hab =>
      refine ⟨hg.dependents, fun {x y} hxy => ?_, hg.disposer, hg.own⟩
      simp only [Registry.perform, Registry.openContents, Registry.containedIn,
        Relations.takeContents, NameGraph.successors_erase, hsame hab hxy]
      split
      · exact .nil
      · exact hg.contents hxy
  | @forget a b hab =>
      refine ⟨fun {x y} hxy => ?_, hg.contents, hg.disposer, hg.own⟩
      simp only [Registry.perform, Registry.forget, Registry.dependentsOf, Relations.scrub,
        NameGraph.successors_unlinkAll]
      refine List.rel_filter (fun c d hcd => ?_) (hg.dependents hxy)
      simp only [decide_eq_true_iff, ne_eq]
      exact not_congr (hsame hab hcd)

end Registry.Corresponds

/-! ### Destructions -/

/-- Only a task that disposes of a name starts a disposer. -/
lemma Registry.disposing_taskLines {g h : Registry S} {t u : Task S}
    (ht : Task.Corresponds ρ t u) :
    (g.taskLines r t).filterMap (Entry.disposing? r) =
      (h.taskLines r u).filterMap (Entry.disposing? r) := by
  cases ht with
  | dispose => rfl
  | _ => exact (filterMap_disposing?_lines _).trans (filterMap_disposing?_lines _).symm

/-- Tasks that correspond start the same disposers. -/
lemma Clears.disposing_eq (hρ : Relator.BiUnique ρ) {g h m m' : Registry S}
    {tasks tasks' : List (Task S)} {lines lines' : List (Entry S)}
    (hc : Clears r g tasks lines m) (hc' : Clears r h tasks' lines' m')
    (hg : g.Corresponds ρ h) (ht : List.Forall₂ (Task.Corresponds ρ) tasks tasks') :
    lines.filterMap (Entry.disposing? r) = lines'.filterMap (Entry.disposing? r) := by
  induction hc generalizing h tasks' lines' with
  | nil =>
      cases ht
      cases hc'
      rfl
  | cons rest ih =>
      obtain _ | ⟨hfirst, hrest⟩ := ht
      cases hc' with
      | cons rest' =>
          rw [List.filterMap_append, List.filterMap_append, Registry.disposing_taskLines hfirst,
            ih rest' (hg.perform hρ hfirst) (List.rel_append (hg.answer_perform hfirst) hrest)]

/-- **Destructions of names that correspond run the same disposers in the same order.** -/
theorem destroy_corresponds (hρ : Relator.BiUnique ρ) {w w' : World S}
    (hg : (w.registry r).Corresponds ρ (w'.registry r))
    (hdisposers : ∀ d, KeepsOff caller r (Entry.disposing? r) (caller.disposer d))
    (hobserver : QuietlyObserved caller r (Entry.disposing? r) (w.registry r))
    (hobserver' : QuietlyObserved caller r (Entry.disposing? r) (w'.registry r)) {a b : Name}
    (hab : ρ a b) :
    ∃ runs v v', Ends caller (Script.destroy r a) w () v ∧
      Ends caller (Script.destroy r b) w' () v' ∧
      v.seen (Entry.disposing? r) = w.seen (Entry.disposing? r) ++ runs ∧
      v'.seen (Entry.disposing? r) = w'.seen (Entry.disposing? r) ++ runs := by
  have hs : SilentTeardown caller r (Entry.disposing? r) :=
    ⟨hdisposers, fun _ _ => rfl, fun _ _ => rfl⟩
  obtain ⟨lines, m, v, hc, hends, hv⟩ := hs.exists_ends_destroy a hobserver
  obtain ⟨lines', m', v', hc', hends', hv'⟩ := hs.exists_ends_destroy b hobserver'
  have hruns := hc.disposing_eq hρ hc' hg (.cons (.destroy hab) .nil)
  exact ⟨_, v, v', hends, hends', hv.seen, hruns ▸ hv'.seen⟩

end InstanceRegistry
