import InstanceRegistry.Proofs.Alias.Chains
import InstanceRegistry.Proofs.Alias.Registration
import InstanceRegistry.Proofs.Alias.Resolution
import InstanceRegistry.Proofs.Registry.Frames
import InstanceRegistry.Proofs.Run.Moments

/-!
No alias ever leads to itself. Whatever is registered, removed or resolved, the check before each
new target is made on a table that still holds the targets about to go, and so refuses more than the
new table would need.

* `AliasTable.Acyclic.mono`, `AliasTable.Acyclic.add`: targets may go, and one may come if its end
  does not lead to its start;
* `AliasTable.Acyclic.register`, `AliasTable.Acyclic.remove`, `AliasTable.Acyclic.resolve`: the
  operations on a table;
* `Moment.acyclic_moves`: every deed to a registry;
* `acyclic_aliases_of_run`, `acyclic_of_run`: every moment of every run, and the ends of the chains
  then.
-/

namespace InstanceRegistry

open Relation (ReflTransGen TransGen)

namespace AliasTable

variable {t t' : AliasTable} {name key target : Name}

/-! ### Targets that come and go -/

/-- Fewer targets close no circle. -/
lemma Acyclic.mono (ht : t.Acyclic) (hsub : ∀ a b, t'.Targets a b → t.Targets a b) :
    t'.Acyclic :=
  fun a hcycle => ht a (TransGen.mono hsub a a hcycle)

/-- A chain that comes by the new target `key → name` leads to its start before, and goes on from
its end. -/
lemma transGen_of_added {a b : Name} (hmiss : ¬ ReflTransGen t.Targets name key)
    (hadd : ∀ a b, t'.Targets a b → t.Targets a b ∨ (a = key ∧ b = name))
    (h : TransGen t'.Targets a b) :
    TransGen t.Targets a b ∨ (ReflTransGen t.Targets a key ∧ ReflTransGen t.Targets name b) := by
  induction h with
  | single hstep =>
      rcases hadd _ _ hstep with hold | ⟨rfl, rfl⟩
      · exact Or.inl (.single hold)
      · exact Or.inr ⟨.refl, .refl⟩
  | tail _ hstep ih =>
      rcases hadd _ _ hstep with hold | ⟨rfl, rfl⟩
      · exact ih.imp (·.tail hold) fun hpath => ⟨hpath.1, hpath.2.tail hold⟩
      · rcases ih with hpath | ⟨-, hback⟩
        · exact Or.inr ⟨hpath.to_reflTransGen, .refl⟩
        · exact absurd hback hmiss

/-- A new target closes no circle, if its end does not lead to its start. -/
lemma Acyclic.add (ht : t.Acyclic) (hmiss : ¬ ReflTransGen t.Targets name key)
    (hadd : ∀ a b, t'.Targets a b → t.Targets a b ∨ (a = key ∧ b = name)) : t'.Acyclic := by
  intro a hcycle
  rcases transGen_of_added hmiss hadd hcycle with hold | ⟨hto, hfrom⟩
  · exact ht a hold
  · exact hmiss (hfrom.trans hto)

/-- What the check for circles lets pass. -/
lemma not_reflTransGen_of_hasAlias (hne : key ≠ name) (h : t.hasAlias key name = false) :
    ¬ ReflTransGen t.Targets name key := by
  rw [Relation.reflTransGen_iff_eq_or_transGen]
  rintro (rfl | hpath)
  · exact hne rfl
  · exact absurd (hasAlias_iff.mpr hpath) (by simp [h])

/-! ### The operations on a table -/

lemma Acyclic.drop (ht : t.Acyclic) (key : Name) : (t.drop key).Acyclic :=
  ht.mono fun _ _ hab => (targets_drop.mp hab).2

lemma Acyclic.insert (ht : t.Acyclic) (hne : key ≠ name) (hcheck : t.hasAlias key name = false) :
    Acyclic { t with targets := t.targets.insert key name } :=
  ht.add (not_reflTransGen_of_hasAlias hne hcheck) fun _ _ hab =>
    ((targets_put t key name).mp hab).symm.imp_left And.right

lemma Acyclic.register (ht : t.Acyclic) {registration : Registration}
    (h : t.register name key = .ok (t', registration)) : t'.Acyclic := by
  cases registers_of_register h with
  | cleared _ => exact ht.drop key
  | added hne _ hcheck => exact ht.insert hne hcheck
  | known _ _ => exact ht
  | retargeted hne _ _ _ hcheck => exact ht.insert hne hcheck

lemma Acyclic.remove (ht : t.Acyclic) (h : t.remove key = .ok t') : t'.Acyclic :=
  (remove_eq_ok h).2 ▸ ht.drop key

/-- An alias that moves takes its old target with it, and the check has seen the table with both. -/
lemma Acyclic.resolveEntry (ht : t.Acyclic) {resolver : Name → Option Name}
    (h : t.resolveEntry resolver key target = .ok t') : t'.Acyclic := by
  cases rewrites_of_resolveEntry h with
  | dropped _ | merged _ _ _ => exact ht.drop key
  | @moved newKey newTarget hpair _ _ hcheck =>
      refine ht.add (not_reflTransGen_of_hasAlias hpair.ne hcheck) fun a b hab => ?_
      rcases (targets_put (t.drop key) newKey newTarget).mp hab with hnew | ⟨-, hold⟩
      · exact Or.inr hnew
      · exact Or.inl (targets_drop.mp hold).2
  | retargeted hpair _ hcheck => exact ht.insert hpair.ne hcheck
  | kept _ => exact ht

/-- The entries are resolved one after another, each in the table that the ones before have left. -/
lemma Acyclic.resolve (ht : t.Acyclic) {resolver : Name → Option Name}
    (h : t.resolve resolver = .ok t') : t'.Acyclic := by
  unfold AliasTable.resolve at h
  generalize t.targets.entries = entries at h
  induction entries generalizing t with
  | nil =>
      cases h
      exact ht
  | cons entry rest ih =>
      rw [List.foldlM_cons] at h
      cases hentry : t.resolveEntry resolver entry.1 entry.2 with
      | error e => rw [hentry] at h; cases h
      | ok working =>
          rw [hentry] at h
          exact ih (ht.resolveEntry hentry) h

end AliasTable

/-! ### Registries and runs -/

variable {S : Setup} {α : Type} {caller : Caller S} {r : S.Index}

lemma Registry.acyclic_apply {g : Registry S} (h : g.aliases.Acyclic) (u : Update S) :
    (g.apply u).registry.aliases.Acyclic := by
  cases u with
  | registerAlias name key =>
      simp only [apply, registerAlias]
      split
      · next hregister => exact h.register hregister
      · exact h
  | removeAlias key =>
      simp only [apply, removeAlias]
      split
      · next hremove => exact h.remove hremove
      · exact h
  | resolveAliases resolver =>
      simp only [apply, resolveAliases]
      split
      · next hresolve => exact h.resolve hresolve
      · exact h
  | register name object =>
      simp only [apply, Registry.register]
      split
      · exact h
      · split
        · split <;> exact h
        · exact h
  | provideEarly name factory =>
      simp only [apply, provideEarly]
      split <;> exact h
  | contain outer inner =>
      simp only [apply, contain]
      split <;> exact h
  | _ => exact h

lemma Registry.aliases_perform (g : Registry S) (task : Task S) :
    (g.perform task).registry.aliases = g.aliases := by
  cases task <;> rfl

/-- No deed closes a circle. -/
lemma Moment.acyclic_moves {m m' : Moment S} {deed : Deed S} (h : m.registry.aliases.Acyclic)
    (hmoves : m.Moves deed m') : m'.registry.aliases.Acyclic := by
  cases deed with
  | update u =>
      cases hmoves
      exact Registry.acyclic_apply h u
  | task t =>
      cases hmoves
      show (m.registry.perform t).registry.aliases.Acyclic
      rw [Registry.aliases_perform]
      exact h
  | _ => exact (hmoves.agreesOutside (by simp) (by simp)).aliases ▸ h

/-- No circle is ever closed in a run that begins with a new registry. -/
lemma acyclic_aliases_of_run (r : S.Index) (allowed : Bool) (s : Script S α) (w : World S) (k : ℕ) :
    ((run caller k (Config.start s
      (w.setRegistry r (Registry.withOverriding allowed)))).world.registry r).aliases.Acyclic := by
  have hnew : (Registry.withOverriding (S := S) allowed).aliases.Acyclic := by
    intro a hcycle
    obtain ⟨b, hstep, -⟩ := TransGen.head'_iff.mp hcycle
    cases hstep
  have hkeeps : ∀ c : Config S α, (c.moment r).registry.aliases.Acyclic →
      ((step caller c).moment r).registry.aliases.Acyclic := by
    intro c hc
    obtain ⟨deed, -, hmoves⟩ := step_moves caller r c
    exact Moment.acyclic_moves hc hmoves
  refine Reaches.preserves hkeeps ⟨k, rfl⟩ ?_
  show ((w.setRegistry r (Registry.withOverriding allowed)).registry r).aliases.Acyclic
  rw [World.registry_setRegistry_self]
  exact hnew

/-- **The aliases are acyclic at every moment**: in every run that begins with a new registry, with
or without the permission to change the targets of aliases. So from every name, no more hops than
there are aliases lead to its canonical name, and that is no alias. -/
theorem acyclic_of_run (r : S.Index) (allowed : Bool) (s : Script S α) (w : World S) (k : ℕ) :
    let table := ((run caller k (Config.start s
      (w.setRegistry r (Registry.withOverriding allowed)))).world.registry r).aliases
    (∀ a, ¬ TransGen table.Targets a a) ∧
      ∀ name, ∃ hops ≤ table.size, table.Hops hops name (table.canonical name) ∧
        table.isAlias (table.canonical name) = false := by
  intro table
  have hacyclic : table.Acyclic := acyclic_aliases_of_run r allowed s w k
  exact ⟨hacyclic, hacyclic.exists_hops_canonical⟩

end InstanceRegistry
