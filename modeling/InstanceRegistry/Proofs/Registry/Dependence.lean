import InstanceRegistry.Proofs.Alias.Subtrees

/-!
Which names depend on a name directly or by way of others. The dependents of a name are recorded
under what it stands for, so the search for a dependent goes on from the canonical name of each name
that it comes by.

* `NameGraph.recorded`, `NameGraph.card_recorded_le`: the names that are recorded under some name;
* `Registry.DependsOn`: the dependents of a name under any alias;
* `Registry.isDependent_iff`, `Registry.answers_isDependent`: what the search for a dependent finds,
  and that it ends;
* `Registry.isDependent_canonical`: a name and its canonical name have the same dependents;
* `dependence_is_reachability`: all of this at every moment of a run.
-/

namespace InstanceRegistry

open Relation (TransGen ReflTransGen)

/-! ### Recorded names -/

namespace NameGraph

variable (g : NameGraph)

/-- The names that are recorded under some name. -/
def recorded : Finset Name := (g.entries.flatMap fun entry => entry.2.names).toFinset

lemma card_recorded_le : g.recorded.card ≤ g.edges := by
  have hlength : (g.entries.flatMap fun entry => entry.2.names).length = g.edges := by
    rw [List.length_flatMap, edges_eq_sum]
    simp only [NameMap.length_names]
  exact hlength ▸ List.toFinset_card_le _

lemma mem_recorded {a b : Name} (h : b ∈ g.successors a) : b ∈ g.recorded := by
  rw [successors_eq] at h
  cases hget : NameMap.get? g a with
  | none =>
      rw [hget] at h
      exact absurd h List.not_mem_nil
  | some set =>
      rw [hget] at h
      exact List.mem_toFinset.mpr
        (List.mem_flatMap.mpr ⟨(a, set), NameMap.get?_eq_some_iff.mp hget, h⟩)

end NameGraph

/-! ### Dependents under any alias -/

variable {S : Setup}

namespace Registry

/-- The name `b` is recorded as a dependent of what `a` stands for. -/
def DependsOn (g : Registry S) (a b : Name) : Prop := b ∈ g.dependentsOf (g.canonical a)

variable {g : Registry S} {name dependent : Name}

/-- The names that a search may come by: its start, and what is recorded as a dependent. -/
lemma mem_insert_recorded {start a b : Name} (h : g.DependsOn a b) :
    b ∈ insert start g.relations.dependents.recorded :=
  Finset.mem_insert_of_mem (g.relations.dependents.mem_recorded h)

lemma card_insert_recorded_le (g : Registry S) (start : Name) :
    (insert start g.relations.dependents.recorded).card ≤ g.relations.dependents.edges + 1 :=
  (Finset.card_insert_le _ _).trans (Nat.succ_le_succ g.relations.dependents.card_recorded_le)

/-- **The search for a dependent is exact**. -/
theorem isDependent_iff :
    g.isDependent name dependent = true ↔ TransGen g.DependsOn name dependent :=
  Search.reaches_iff (fun _ _ _ => mem_insert_recorded) (Finset.mem_insert_self _ _)
    (g.card_insert_recorded_le name)

/-- The search for a dependent ends without a bound on the names that it expands. -/
theorem answers_isDependent (g : Registry S) (name dependent : Name) :
    Search.Answers (fun a => g.dependentsOf (g.canonical a)) dependent [] [name]
      (g.isDependent name dependent) := by
  have hstart : ∀ a ∈ [name], a ∈ insert name g.relations.dependents.recorded := fun a ha =>
    List.mem_singleton.mp ha ▸ Finset.mem_insert_self _ _
  have hbound := g.card_insert_recorded_le name
  exact Search.answers_reaches (fun _ _ _ => mem_insert_recorded) hstart (by simpa using hbound)

/-- A path of one step or more, as the names that it comes by after its start. -/
lemma transGen_dependsOn_iff : TransGen g.DependsOn name dependent ↔
    ∃ path : List Name, List.IsChain g.DependsOn (name :: path) ∧
      path.getLast? = some dependent := by
  constructor
  · intro h
    obtain ⟨first, hfirst, hrest⟩ := TransGen.head'_iff.mp h
    obtain ⟨path, hchain, hlast⟩ := List.exists_isChain_cons_of_relationReflTransGen hrest
    refine ⟨first :: path, hchain.cons_cons hfirst, ?_⟩
    rw [List.getLast?_eq_some_getLast (List.cons_ne_nil _ _), hlast]
  · rintro ⟨path, hchain, hlast⟩
    cases path with
    | nil => cases hlast
    | cons first path =>
        obtain ⟨hfirst, hrest⟩ := List.isChain_cons_cons.mp hchain
        rw [List.getLast?_eq_some_getLast (List.cons_ne_nil _ _), Option.some.injEq] at hlast
        exact .head' hfirst (List.relationReflTransGen_of_exists_isChain_cons path hrest hlast)

lemma canonical_canonical (h : g.aliases.Acyclic) (name : Name) :
    g.canonical (g.canonical name) = g.canonical name :=
  h.canonical_eq .refl (h.reflTransGen_canonical name).2

/-- A name and its canonical name have the same dependents. -/
lemma isDependent_canonical (h : g.aliases.Acyclic) (name dependent : Name) :
    g.isDependent (g.canonical name) dependent = g.isDependent name dependent := by
  have hstep : ∀ b, g.DependsOn (g.canonical name) b ↔ g.DependsOn name b := by
    intro b
    rw [DependsOn, canonical_canonical h, DependsOn]
  rw [Bool.eq_iff_iff, isDependent_iff, isDependent_iff, TransGen.head'_iff, TransGen.head'_iff]
  simp only [hstep]

end Registry

/-- **To depend on a name is to be reached from it**, with the aliases of any moment of a run that
begins with a new registry and any recorded relations, with circles or without: the search ends, and
finds a dependent exactly if a path of one step or more leads to it, along which each name is
recorded as a dependent of what the name before it stands for. So it makes no difference whether a
name or its canonical name is given. -/
theorem dependence_is_reachability {α : Type} (caller : Caller S) (r : S.Index) (allowed : Bool)
    (s : Script S α) (w : World S) (k : ℕ) (relations : Relations) (name dependent : Name) :
    let g : Registry S := { (run caller k (Config.start s
      (w.setRegistry r (Registry.withOverriding allowed)))).world.registry r with relations }
    Search.Answers (fun a => g.dependentsOf (g.canonical a)) dependent [] [name]
      (g.isDependent name dependent) ∧
    (g.isDependent name dependent = true ↔ ∃ path : List Name,
      List.IsChain (fun a b => b ∈ g.dependentsOf (g.canonical a)) (name :: path) ∧
        path.getLast? = some dependent) ∧
    g.isDependent name dependent = g.isDependent (g.canonical name) dependent := by
  intro g
  have hacyclic : g.aliases.Acyclic := acyclic_aliases_of_run r allowed s w k
  exact ⟨g.answers_isDependent name dependent,
    Registry.isDependent_iff.trans Registry.transGen_dependsOn_iff,
    (Registry.isDependent_canonical hacyclic name dependent).symm⟩

end InstanceRegistry
