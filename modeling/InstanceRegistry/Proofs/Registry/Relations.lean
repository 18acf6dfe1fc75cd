import InstanceRegistry.Proofs.Registry.Frames

/-!
The dependents and the contents of names after an operation or a task of a destruction.

* `Registry.relations_apply`: the operations that change the relations;
* `Registry.mem_dependentsOf_apply_depend`, `Registry.mem_dependentsOf_apply_contain`,
  `Registry.mem_containedIn_contain`: what is recorded;
* `Registry.mem_dependentsOf_apply`, `Registry.mem_containedIn_apply`,
  `Registry.mem_containedIn_perform`: what no operation takes away, and what nothing else adds;
* `Registry.isDependent_of_mem`: a direct dependent is found.
-/

namespace InstanceRegistry

variable {S : Setup}

namespace Registry

variable {g : Registry S} {outer inner name other : Name}

/-! ### What the operations record -/

/-- Two operations change the relations: one records a dependency on what a name stands for, and the
other one a containment that is not known, with its dependency. -/
lemma relations_apply (g : Registry S) (u : Update S) :
    (g.apply u).registry.relations = g.relations ∨
    (∃ dependent dependency, u = .depend dependent dependency ∧
      (g.apply u).registry.relations = g.relations.depend dependent (g.canonical dependency)) ∨
    ∃ outer inner, u = .contain outer inner ∧ inner ∉ g.containedIn outer ∧
      (g.apply u).registry.relations =
        (g.relations.contain outer inner).depend outer (g.canonical inner) := by
  cases u with
  | registerAlias name key =>
      left
      simp only [apply, registerAlias]
      split <;> rfl
  | removeAlias key =>
      left
      simp only [apply, removeAlias]
      split <;> rfl
  | resolveAliases resolver =>
      left
      simp only [apply, resolveAliases]
      split <;> rfl
  | register name object =>
      left
      simp only [apply, register]
      split
      · rfl
      · split
        · split <;> rfl
        · rfl
  | provideEarly name factory =>
      left
      simp only [apply, provideEarly]
      split <;> rfl
  | contain outer inner =>
      simp only [apply, contain]
      split
      · exact Or.inl rfl
      · next hnew =>
          exact Or.inr (Or.inr ⟨outer, inner, rfl, fun hmem => hnew (decide_eq_true hmem), rfl⟩)
  | depend dependent dependency => exact Or.inr (Or.inl ⟨dependent, dependency, rfl, rfl⟩)
  | _ => exact Or.inl rfl

lemma relations_apply_of_ne {u : Update S} (hdepend : ∀ x y, u ≠ .depend x y)
    (hcontain : ∀ x y, u ≠ .contain x y) : (g.apply u).registry.relations = g.relations := by
  rcases g.relations_apply u with hsame | ⟨x, y, hu, -⟩ | ⟨x, y, hu, -, -⟩
  · exact hsame
  · exact absurd hu (hdepend x y)
  · exact absurd hu (hcontain x y)

/-- A dependency is recorded under what its name stands for. -/
lemma mem_dependentsOf_apply_depend {dependent dependency : Name} :
    other ∈ (g.apply (.depend dependent dependency)).registry.dependentsOf name ↔
      (name = g.canonical dependency ∧ other = dependent) ∨ other ∈ g.dependentsOf name :=
  g.relations.mem_dependents_depend

/-- The container of a pair that is not known becomes a dependent. -/
lemma mem_dependentsOf_apply_contain :
    other ∈ (g.apply (.contain outer inner)).registry.dependentsOf name ↔
      (inner ∉ g.containedIn outer ∧ name = g.canonical inner ∧ other = outer) ∨
        other ∈ g.dependentsOf name := by
  simp only [apply, contain]
  split
  · next hlinked =>
      have hknown : inner ∈ g.containedIn outer := of_decide_eq_true hlinked
      exact ⟨Or.inr, fun h => h.resolve_left fun hnew => hnew.1 hknown⟩
  · next hlinked =>
      have hnew : inner ∉ g.containedIn outer := fun hknown => hlinked (decide_eq_true hknown)
      rw [and_iff_right hnew]
      exact (g.relations.contain outer inner).mem_dependents_depend

/-- A pair is known once it is recorded. -/
lemma mem_containedIn_contain {x y : Name} :
    y ∈ (g.apply (.contain outer inner)).registry.containedIn x ↔
      (x = outer ∧ y = inner) ∨ y ∈ g.containedIn x := by
  simp only [apply, contain]
  split
  · next h =>
      refine ⟨Or.inr, ?_⟩
      rintro (⟨rfl, rfl⟩ | hy)
      · exact of_decide_eq_true h
      · exact hy
  · simp only [depend, containedIn, Relations.contents_depend]
    exact g.relations.contents.mem_successors_link

/-! ### What nothing else changes -/

/-- Only the operation that records a pair makes it known. -/
lemma mem_containedIn_apply {u : Update S} (h : inner ∈ (g.apply u).registry.containedIn outer) :
    u = .contain outer inner ∨ inner ∈ g.containedIn outer := by
  rcases g.relations_apply u with hsame | ⟨_, _, -, hdepend⟩ | ⟨_, _, rfl, -, -⟩
  · rw [containedIn, hsame] at h
    exact Or.inr h
  · rw [containedIn, hdepend, Relations.contents_depend] at h
    exact Or.inr h
  · rcases mem_containedIn_contain.mp h with ⟨rfl, rfl⟩ | hold
    · exact Or.inl rfl
    · exact Or.inr hold

/-- No task of a destruction makes a pair known. -/
lemma mem_containedIn_perform {t : Task S} (h : inner ∈ (g.perform t).registry.containedIn outer) :
    inner ∈ g.containedIn outer := by
  cases t with
  | destroyContents name =>
      simp only [perform, openContents, containedIn, Relations.takeContents,
        NameGraph.successors_erase] at h
      split at h
      · cases h
      · exact h
  | reset => cases h
  | _ => exact h

/-- No operation takes a dependent away. -/
lemma mem_dependentsOf_apply (h : other ∈ g.dependentsOf name) (u : Update S) :
    other ∈ (g.apply u).registry.dependentsOf name := by
  rcases g.relations_apply u with hsame | ⟨_, _, rfl, -⟩ | ⟨_, _, rfl, -, -⟩
  · rw [dependentsOf, hsame]
    exact h
  · exact mem_dependentsOf_apply_depend.mpr (Or.inr h)
  · exact mem_dependentsOf_apply_contain.mpr (Or.inr h)

/-- A direct dependent is found. -/
lemma isDependent_of_mem (h : other ∈ g.dependentsOf (g.canonical name)) :
    g.isDependent name other = true := by
  simp only [isDependent, Relations.isDependent, Search.reaches, List.not_mem_nil, decide_false,
    List.dropWhile_cons, Bool.false_eq_true, if_false, Bool.or_eq_true, decide_eq_true_iff]
  exact Or.inl h

end Registry

end InstanceRegistry
