import InstanceRegistry.Proofs.Registry.Frames

/-!
What the three caches hold for one name, and what the operations do to that.

* `Caches`: what is cached for a name; `Caches.Exclusive`: in one cache at most;
* `Caches.Admits`: what the end of an early factory may find;
* `Update.Puts`: the operations that put a name into a cache;
* `Registry.caches_bind_self`, `Registry.caches_purge_self`, `Registry.caches_finishExposure_self`:
  the caches after an object is bound, a name is dropped, and an early factory has ended;
* `Registry.caches_of_lookup`, `Registry.caches_of_demand`, `Registry.caches_finishCreation`: before
  and after a factory;
* `Registry.caches_apply`, `Registry.caches_perform`: nothing else fills a cache, and most
  operations and tasks leave it alone (`Registry.caches_apply_eq`, `Registry.caches_perform_eq`).
-/

namespace InstanceRegistry

variable {S : Setup}

/-- What is cached for a name. -/
structure Caches (S : Setup) where
  object : Option S.Object
  factory : Option S.Factory
  reference : Option S.Object

namespace Caches

/-- Nothing is cached. -/
def absent : Caches S := ⟨none, none, none⟩

/-- At most one of the caches has the name. -/
def Exclusive (c : Caches S) : Prop :=
  [c.object.isSome, c.factory.isSome, c.reference.isSome].count true ≤ 1

instance (c : Caches S) : Decidable c.Exclusive := inferInstanceAs (Decidable (_ ≤ _))

/-- The result of an early factory has a place: nothing is bound, and in the way of an object is no
other early factory, and in the way of the factory that failed is no early object. -/
def Admits (c : Caches S) : Except Error S.Object → Prop
  | .ok _ => c.object = none ∧ c.factory = none
  | .error _ => c.object = none ∧ c.reference = none

/-- The caches after an early factory has ended. -/
def expose (c : Caches S) (factory : S.Factory) : Except Error S.Object → Caches S
  | .ok o => { c with reference := some o }
  | .error _ => { c with factory := some (c.factory.getD factory) }

lemma exclusive_absent : (absent : Caches S).Exclusive := by simp [Exclusive, absent]

lemma exclusive_object (o : S.Object) : (⟨some o, none, none⟩ : Caches S).Exclusive := by
  simp [Exclusive]

lemma exclusive_factory (f : S.Factory) : (⟨none, some f, none⟩ : Caches S).Exclusive := by
  simp [Exclusive]

/-- The result of an early factory leaves one cache at most exactly if it has a place. -/
lemma exclusive_expose_iff {c : Caches S} {factory : S.Factory} {result : Except Error S.Object} :
    (c.expose factory result).Exclusive ↔ c.Admits result := by
  obtain ⟨object, early, reference⟩ := c
  cases result <;> cases object <;> cases early <;> cases reference <;>
    simp [expose, Admits, Exclusive]

/-- A name with an early object is in no other cache. -/
lemma Exclusive.eq_of_reference {c : Caches S} {o : S.Object} (h : c.Exclusive)
    (ho : c.reference = some o) : c = ⟨none, none, some o⟩ := by
  obtain ⟨object, early, reference⟩ := c
  obtain rfl : reference = some o := ho
  cases object <;> cases early <;> simp [Exclusive] at h ⊢

end Caches

/-- The operation is to bind the name, or to install an early factory for it. -/
def Update.Puts (name : Name) : Update S → Prop
  | register other _ => other = name
  | provideEarly other _ => other = name
  | _ => False

namespace Registry

variable {g g' : Registry S} {name other : Name}

/-- What is cached for the name. -/
def caches (g : Registry S) (name : Name) : Caches S where
  object := g.objects.get? name
  factory := g.earlyFactories.get? name
  reference := g.earlyReferences.get? name

/-! ### The caches after a change of them -/

lemma caches_bind_self (g : Registry S) (name : Name) (o : S.Object) :
    (g.bind name o).caches name = ⟨some o, none, none⟩ := by
  simp [caches, bind, NameMap.get?_insert, NameMap.get?_erase]

lemma caches_bind_of_ne (g : Registry S) (h : other ≠ name) (o : S.Object) :
    (g.bind name o).caches other = g.caches other := by
  simp [caches, bind, NameMap.get?_insert, NameMap.get?_erase, h]

lemma caches_purge_self (g : Registry S) (name : Name) :
    (g.purge name).caches name = .absent := by
  simp [caches, purge, NameMap.get?_erase, Caches.absent]

lemma caches_purge_of_ne (g : Registry S) (h : other ≠ name) :
    (g.purge name).caches other = g.caches other := by
  simp [caches, purge, NameMap.get?_erase, h]

lemma caches_provideEarly_of_unbound (h : g.object? name = none) (factory : S.Factory) :
    (g.provideEarly name factory).caches name = ⟨none, some factory, none⟩ := by
  have hcontains : g.contains name = false := by
    rw [Bool.eq_false_iff, ne_eq, contains_iff_isSome, h]
    simp
  have hobject : g.objects.get? name = none := h
  simp [provideEarly, hcontains, caches, hobject, NameMap.get?_insert, NameMap.get?_erase]

lemma caches_provideEarly_self (g : Registry S) (factory : S.Factory) :
    (g.provideEarly name factory).caches name = g.caches name ∨
      (g.provideEarly name factory).caches name = ⟨none, some factory, none⟩ := by
  by_cases hname : g.contains name = true
  · left
    rw [provideEarly, if_pos hname]
  · rw [contains_iff_isSome, Option.not_isSome_iff_eq_none] at hname
    exact Or.inr (caches_provideEarly_of_unbound hname factory)

lemma caches_provideEarly_of_ne (g : Registry S) (h : other ≠ name) (factory : S.Factory) :
    (g.provideEarly name factory).caches other = g.caches other := by
  unfold provideEarly
  split
  · rfl
  · simp [caches, NameMap.get?_insert, NameMap.get?_erase, h]

lemma caches_finishExposure_self (g : Registry S) (name : Name) (factory : S.Factory)
    (result : Except Error S.Object) :
    (g.finishExposure name factory result).registry.caches name =
      (g.caches name).expose factory result := by
  cases result with
  | ok o => simp [finishExposure, caches, Caches.expose, NameMap.get?_insert]
  | error e =>
      simp only [finishExposure]
      split
      · next hmem =>
          obtain ⟨f, hf⟩ := Option.isSome_iff_exists.mp (NameMap.isSome_get?_iff.mpr hmem)
          simp [caches, Caches.expose, hf]
      · next hmem =>
          have hnone : g.earlyFactories.get? name = none := by
            rw [← NameMap.isSome_get?_iff] at hmem
            exact Option.not_isSome_iff_eq_none.mp hmem
          simp [caches, Caches.expose, hnone, NameMap.get?_insert]

lemma caches_finishExposure_of_ne (g : Registry S) (h : other ≠ name) (factory : S.Factory)
    (result : Except Error S.Object) :
    (g.finishExposure name factory result).registry.caches other = g.caches other := by
  cases result with
  | ok o => simp [finishExposure, caches, NameMap.get?_insert, h]
  | error e =>
      simp only [finishExposure]
      split
      · rfl
      · simp [caches, NameMap.get?_insert, h]

/-! ### Before and after a factory -/

/-- An early factory that a lookup takes out was all that was cached for its name. -/
lemma caches_of_lookup {early : Bool} {factory : S.Factory}
    (h : g.lookup name early = .expose factory g') :
    g.caches name = ⟨none, some factory, none⟩ ∧ g'.caches name = .absent ∧
      ∀ other, other ≠ name → g'.caches other = g.caches other := by
  have hg' := eq_of_lookup_eq_expose h
  have hcaches : g.caches name = ⟨none, some factory, none⟩ := by
    unfold lookup at h
    split at h
    · cases h
    next hobject =>
      split at h
      · split at h
        · cases h
        next hreference =>
          split at h
          · split at h
            · next hfactory =>
                cases h
                rw [caches, hfactory, hreference, ← object?, hobject]
            · cases h
          · cases h
      · cases h
  have hfields := hcaches
  simp only [caches, Caches.mk.injEq] at hfields
  refine ⟨hcaches, ?_, fun other hother => ?_⟩
  · rw [hg']
    simp [caches, Caches.absent, NameMap.get?_erase, hfields.1, hfields.2.2]
  · rw [hg']
    simp [caches, NameMap.get?_erase, hother]

/-- A lookup is answered with what is bound, or else with an early object. -/
lemma object_or_reference_of_lookup {early : Bool} {o : S.Object}
    (h : g.lookup name early = .answered (some o)) :
    g.object? name = some o ∨ g.object? name = none ∧ g.earlyReferences.get? name = some o := by
  unfold lookup at h
  split at h
  · next hobject =>
      cases h
      exact Or.inl hobject
  · next hobject =>
      split at h
      · split at h
        · next hreference =>
            cases h
            exact Or.inr ⟨hobject, hreference⟩
        · split at h
          · split at h <;> cases h
          · cases h
      · cases h

lemma caches_of_mark (h : g.mark name = some g') : g'.caches = g.caches := by
  unfold mark at h
  split at h
  · cases h
    rfl
  · split at h <;> cases h
    rfl

lemma caches_of_unmark (h : g.unmark name = some g') : g'.caches = g.caches := by
  unfold unmark at h
  split at h
  · cases h
    rfl
  · split at h <;> cases h
    rfl

/-- The start of a creation changes no cache. -/
lemma caches_of_demand {opened : Bool} (h : g.demand name = .create g' opened) :
    g'.caches = g.caches := by
  unfold demand at h
  split at h
  · cases h
  split at h
  · cases h
  split at h
  · cases h
  · next marked hmark =>
      cases h
      rw [← caches_of_mark hmark]
      split <;> rfl

/-- The end of a creation binds the object that its factory ended with, or changes no cache. -/
lemma caches_finishCreation (g : Registry S) (name : Name) (opened : Bool)
    (result : Except Error S.Object) :
    (g.finishCreation name opened result).registry.caches = g.caches ∨
      ∃ o, result = .ok o ∧
        (g.finishCreation name opened result).registry.caches name = ⟨some o, none, none⟩ ∧
        ∀ other, other ≠ name →
          (g.finishCreation name opened result).registry.caches other = g.caches other := by
  have hclosed : (g.closeReports opened).1.caches = g.caches := by
    cases opened <;> rfl
  cases hunmark : (g.closeReports opened).1.unmark name with
  | none =>
      simp only [finishCreation, hunmark]
      exact Or.inl hclosed
  | some unmarked =>
      have hsame : unmarked.caches = g.caches := (caches_of_unmark hunmark).trans hclosed
      simp only [finishCreation, hunmark]
      rw [← hsame]
      unfold settle
      split
      · next o =>
          exact Or.inr ⟨o, rfl, caches_bind_self unmarked name o,
            fun other hother => caches_bind_of_ne unmarked hother o⟩
      · split <;> exact Or.inl rfl
      · exact Or.inl rfl

/-! ### The other operations -/

/-- Most operations leave what is cached for a name. -/
lemma caches_apply_eq (g : Registry S) {u : Update S} {name : Name} (hputs : ¬ u.Puts name)
    (hremove : u ≠ .remove name) (hclear : u ≠ .clear) :
    (g.apply u).registry.caches name = g.caches name := by
  cases u with
  | registerAlias other key =>
      simp only [apply, registerAlias]
      split <;> rfl
  | removeAlias key =>
      simp only [apply, removeAlias]
      split <;> rfl
  | resolveAliases resolver =>
      simp only [apply, resolveAliases]
      split <;> rfl
  | register other object =>
      have hother : name ≠ other := fun heq => hputs heq.symm
      simp only [apply, register]
      split
      · rfl
      · split
        · split <;> rfl
        · exact caches_bind_of_ne g hother object
  | provideEarly other factory =>
      exact caches_provideEarly_of_ne g (fun heq => hputs heq.symm) factory
  | remove other =>
      refine caches_purge_of_ne g ?_
      rintro rfl
      exact hremove rfl
  | clear => exact absurd rfl hclear
  | contain outer inner =>
      simp only [apply, contain]
      split <;> rfl
  | _ => rfl

/-- An operation leaves what is cached for a name, or drops it, or puts the name into one cache. -/
lemma caches_apply (g : Registry S) (u : Update S) (name : Name) :
    (g.apply u).registry.caches name = g.caches name ∨
      (g.apply u).registry.caches name = .absent ∨
      u.Puts name ∧ ((g.apply u).registry.caches name).Exclusive := by
  by_cases hputs : u.Puts name
  · cases u with
    | register other object =>
        obtain rfl : other = name := hputs
        simp only [apply, register]
        split
        · exact Or.inl rfl
        · split
          · split <;> exact Or.inl rfl
          · right; right
            rw [caches_bind_self]
            exact ⟨rfl, Caches.exclusive_object object⟩
    | provideEarly other factory =>
        obtain rfl : other = name := hputs
        rcases caches_provideEarly_self g factory with hsame | hput
        · exact Or.inl hsame
        · right; right
          refine ⟨rfl, ?_⟩
          show ((g.provideEarly other factory).caches other).Exclusive
          rw [hput]
          exact Caches.exclusive_factory factory
    | _ => exact hputs.elim
  by_cases hremove : u = .remove name
  · subst hremove
    exact Or.inr (Or.inl (caches_purge_self g name))
  by_cases hclear : u = .clear
  · subst hclear
    exact Or.inr (Or.inl rfl)
  exact Or.inl (caches_apply_eq g hputs hremove hclear)

/-- Most tasks of a destruction leave what is cached for a name. -/
lemma caches_perform_eq (g : Registry S) {t : Task S} {name : Name} (hdestroy : t ≠ .destroy name)
    (hreset : t ≠ .reset) : (g.perform t).registry.caches name = g.caches name := by
  cases t with
  | destroy other =>
      refine caches_purge_of_ne g ?_
      rintro rfl
      exact hdestroy rfl
  | reset => exact absurd rfl hreset
  | _ => rfl

/-- A task of a destruction leaves what is cached for a name, or drops it. -/
lemma caches_perform (g : Registry S) (t : Task S) (name : Name) :
    (g.perform t).registry.caches name = g.caches name ∨
      (g.perform t).registry.caches name = .absent := by
  by_cases hdestroy : t = .destroy name
  · subst hdestroy
    exact Or.inr (caches_purge_self g name)
  by_cases hreset : t = .reset
  · subst hreset
    exact Or.inr rfl
  exact Or.inl (caches_perform_eq g hdestroy hreset)

end Registry

end InstanceRegistry
