import InstanceRegistry.Alias.Registration

/-!
What the operations on single aliases come to when they succeed.

* `AliasTable.bind_eq_ok`, `AliasTable.remove_eq_ok`: a new target, and an alias taken away;
* `AliasTable.Registers`, `AliasTable.registers_of_register`: the ways in which a registration
  succeeds.
-/

namespace InstanceRegistry.AliasTable

variable {t t' : AliasTable} {name key : Name} {registration : Registration}

theorem bind_eq_ok (h : t.bind key name = .ok t') :
    t.hasAlias key name = false ∧ t' = { t with targets := t.targets.insert key name } := by
  unfold AliasTable.bind at h
  split at h
  · cases h
  · next hcheck => exact ⟨Bool.not_eq_true _ ▸ hcheck, (Except.ok.inj h).symm⟩

theorem remove_eq_ok (h : t.remove key = .ok t') : t.isAlias key = true ∧ t' = t.drop key := by
  unfold AliasTable.remove at h
  split at h
  · next halias => exact ⟨halias, (Except.ok.inj h).symm⟩
  · cases h

variable (t name key) in
/-- A way in which the registration of `key` for `name` succeeds. -/
inductive Registers : AliasTable → Registration → Prop
  | cleared (heq : key = name) : Registers (t.drop key) (.cleared (t.isAlias key))
  | added (hne : key ≠ name) (hnone : t.targets.get? key = none)
      (hcheck : t.hasAlias key name = false) :
      Registers { t with targets := t.targets.insert key name } .added
  | known (hne : key ≠ name) (hsame : t.targets.get? key = some name) : Registers t .known
  | retargeted {previous : Name} (hne : key ≠ name) (hprevious : t.targets.get? key = some previous)
      (hother : previous ≠ name) (hoverriding : t.overriding = true)
      (hcheck : t.hasAlias key name = false) :
      Registers { t with targets := t.targets.insert key name } (.retargeted previous)

theorem registers_of_register (h : t.register name key = .ok (t', registration)) :
    t.Registers name key t' registration := by
  have hbind : ∀ came, (t.bind key name).map (·, came) = .ok (t', registration) →
      t.hasAlias key name = false ∧ t' = { t with targets := t.targets.insert key name } ∧
        registration = came := by
    intro came hmap
    cases hbound : t.bind key name with
    | error e => rw [hbound] at hmap; cases hmap
    | ok bound =>
        rw [hbound] at hmap
        cases hmap
        obtain ⟨hcheck, rfl⟩ := bind_eq_ok hbound
        exact ⟨hcheck, rfl, rfl⟩
  unfold AliasTable.register at h
  split at h
  · cases h
  split at h
  · cases h
  split at h
  · next heq =>
      cases h
      exact .cleared heq
  next hne =>
  split at h
  · next hnone =>
      obtain ⟨hcheck, rfl, rfl⟩ := hbind _ h
      exact .added hne hnone hcheck
  · next previous hprevious =>
      split at h
      · next hsame =>
          cases h
          exact .known hne (hsame ▸ hprevious)
      · next hother =>
          split at h
          · next hoverriding =>
              obtain ⟨hcheck, rfl, rfl⟩ := hbind _ h
              exact .retargeted hne hprevious hother hoverriding hcheck
          · cases h

end InstanceRegistry.AliasTable
