import Mathlib.Tactic
import InstanceRegistry.NameMap.Lemmas
import InstanceRegistry.Registry.Creation
import InstanceRegistry.Registry.Lemmas
import InstanceRegistry.Registry.Update

/-!
The two ends of a creation, and which names are bound in between.

* `Registry.entering`, `Registry.demand_eq_create`: the registry when a factory starts;
* `Registry.leaving`, `Registry.finishCreation_eq`: the registry when a factory has ended;
* `Registry.lookup_of_bound` and the like: what a lookup comes to;
* `Registry.AtRest`: a registry before the first creation;
* `Registry.Gains`: the names that are bound from one moment to another.
-/

namespace InstanceRegistry

variable {S : Setup}

namespace Registry

variable {g g₁ g₂ : Registry S} {name : Name}

/-! ### The ends of a creation -/

/-- The registry in which the factory of a name starts. -/
def entering (g : Registry S) (name : Name) : Registry S :=
  { g with
    inCreation := g.inCreation.add name
    suppressed := some (g.suppressed.getD []) }

/-- The registry after the factory of a name has ended, before its result is looked at. -/
def leaving (g : Registry S) (name : Name) (opened : Bool) : Registry S :=
  { g with
    inCreation := g.inCreation.erase name
    suppressed := if opened then none else g.suppressed }

/-- The request for a name that is neither bound nor being created starts its factory. -/
lemma demand_eq_create (hbound : g.object? name = none) (hdestruction : g.inDestruction = false)
    (hexcluded : name ∉ g.excluded) (hmark : name ∉ g.inCreation) :
    g.demand name = .create (g.entering name) g.suppressed.isNone := by
  have hmarked : g.mark name = some { g with inCreation := g.inCreation.add name } := by
    rw [mark, if_neg hexcluded, if_neg hmark]
  have hopen : ({ g with inCreation := g.inCreation.add name } : Registry S).openReports =
      (g.entering name, g.suppressed.isNone) := by
    cases hs : g.suppressed <;> simp only [openReports, entering, hs] <;> rfl
  unfold demand
  rw [hbound, hdestruction, hmarked]
  simp only [Bool.false_eq_true, if_false]
  rw [hopen]

/-- The request for a name that is neither bound nor marked starts its factory, whether the name is
tracked or not. -/
lemma exists_demand_eq_create (hbound : g.object? name = none)
    (hdestruction : g.inDestruction = false) (hmark : name ∉ g.inCreation) :
    ∃ g' opened, g.demand name = .create g' opened := by
  by_cases hexcluded : name ∈ g.excluded
  · have hmarked : g.mark name = some g := if_pos hexcluded
    refine ⟨g.openReports.1, g.openReports.2, ?_⟩
    simp only [demand, hbound, hdestruction, hmarked, Bool.false_eq_true, if_false]
  · exact ⟨_, _, demand_eq_create hbound hdestruction hexcluded hmark⟩

/-- The request for a name that is being created is refused. -/
lemma demand_of_inCreation (hbound : g.object? name = none) (hdestruction : g.inDestruction = false)
    (hexcluded : name ∉ g.excluded) (hmark : name ∈ g.inCreation) :
    g.demand name = .answered (.error (.inCreation name)) [.creating name] := by
  simp [demand, hbound, hdestruction, mark, hexcluded, hmark]

/-- A request for a tracked name that starts its factory finds no mark. -/
lemma eq_of_demand_eq_create {opened : Bool} (hexcluded : name ∉ g.excluded)
    (h : g.demand name = .create g₁ opened) :
    name ∉ g.inCreation ∧ g₁ = g.entering name ∧ opened = g.suppressed.isNone := by
  cases hbound : g.object? name with
  | some object =>
      simp only [demand, hbound] at h
      cases h
  | none =>
      have hlive : g.inDestruction = false := by
        cases hdestruction : g.inDestruction with
        | false => rfl
        | true => simp [demand, hbound, hdestruction] at h
      have hmark : name ∉ g.inCreation := by
        intro hmark
        rw [demand_of_inCreation hbound hlive hexcluded hmark] at h
        cases h
      rw [demand_eq_create hbound hlive hexcluded hmark] at h
      cases h
      exact ⟨hmark, rfl, rfl⟩

lemma demand_of_bound {object : S.Object} (hbound : g.object? name = some object) :
    g.demand name = .answered (.ok object) [] := by
  simp [demand, hbound]

/-- The end of a creation takes the mark away, and settles with the registry then. -/
lemma finishCreation_eq (hexcluded : name ∉ g.excluded) (hmark : name ∈ g.inCreation)
    (opened : Bool) (result : Except Error S.Object) :
    g.finishCreation name opened result =
      (g.leaving name opened).settle name (g.closeReports opened).2 result := by
  have hunmark : (g.closeReports opened).1.unmark name = some (g.leaving name opened) := by
    cases opened <;> simp [closeReports, unmark, leaving, hexcluded, hmark]
  simp only [finishCreation, hunmark]

@[simp] lemma object?_provideEarly (g : Registry S) (name other : Name) (factory : S.Factory) :
    (g.provideEarly name factory).object? other = g.object? other := by
  unfold provideEarly
  split <;> rfl

/-! ### Lookups -/

lemma lookup_of_bound {object : S.Object} (hbound : g.object? name = some object) (early : Bool) :
    g.lookup name early = .answered (some object) := by
  simp only [lookup, hbound]

/-- A name that is neither bound nor being created has no answer. -/
lemma lookup_of_unmarked (hbound : g.object? name = none) (hmark : name ∉ g.inCreation)
    (early : Bool) : g.lookup name early = .answered none := by
  simp [lookup, hbound, isMarked, hmark]

lemma lookup_of_reference {object : S.Object} (hbound : g.object? name = none)
    (hmark : name ∈ g.inCreation) (hreference : g.earlyReferences.get? name = some object)
    (early : Bool) : g.lookup name early = .answered (some object) := by
  simp [lookup, hbound, isMarked, hmark, hreference]

/-- The early factory of a name that is being created is run once. -/
lemma lookup_of_factory {factory : S.Factory} (hbound : g.object? name = none)
    (hmark : name ∈ g.inCreation) (hreference : g.earlyReferences.get? name = none)
    (hfactory : g.earlyFactories.get? name = some factory) :
    g.lookup name true =
      .expose factory { g with earlyFactories := g.earlyFactories.erase name } := by
  simp [lookup, hbound, isMarked, hmark, hreference, hfactory]

/-! ### What is bound from one moment to another -/

/-- Nothing is bound, installed, being created or excluded, and nothing is being destroyed. -/
structure AtRest (g : Registry S) : Prop where
  bound : ∀ m, g.object? m = none
  installed : ∀ m, g.earlyFactories.get? m = none
  marked : ∀ m, m ∉ g.inCreation
  tracked : ∀ m, m ∉ g.excluded
  live : g.inDestruction = false

/-- From `g` to `g'` the names in `created` are bound, each once, and what was bound stays. -/
structure Gains (g g' : Registry S) (created : List Name) : Prop where
  keeps : ∀ m o, g.object? m = some o → g'.object? m = some o
  gained : ∀ m, m ∈ created ↔ g.object? m = none ∧ (g'.object? m).isSome
  once : created.Nodup

namespace Gains

lemma refl (g : Registry S) : Gains g g [] where
  keeps _ _ h := h
  gained m := by cases h : g.object? m <;> simp
  once := List.nodup_nil

lemma isSome {l : List Name} (h : Gains g g₁ l) {m : Name} (hm : (g.object? m).isSome) :
    (g₁.object? m).isSome := by
  obtain ⟨o, ho⟩ := Option.isSome_iff_exists.mp hm
  exact Option.isSome_iff_exists.mpr ⟨o, h.keeps m o ho⟩

lemma trans {l₁ l₂ : List Name} (h : Gains g g₁ l₁) (h' : Gains g₁ g₂ l₂) :
    Gains g g₂ (l₁ ++ l₂) where
  keeps m o hm := h'.keeps m o (h.keeps m o hm)
  gained m := by
    rw [List.mem_append, h.gained, h'.gained]
    constructor
    · rintro (⟨hnone, hsome⟩ | ⟨hnone, hsome⟩)
      · exact ⟨hnone, h'.isSome hsome⟩
      · refine ⟨?_, hsome⟩
        by_contra hne
        have hbound := h.isSome (Option.ne_none_iff_isSome.mp hne)
        rw [hnone] at hbound
        cases hbound
    · rintro ⟨hnone, hsome⟩
      cases hm : g₁.object? m with
      | none => exact Or.inr ⟨rfl, hsome⟩
      | some o => exact Or.inl ⟨hnone, rfl⟩
  once := by
    refine h.once.append h'.once fun m hm hm' => ?_
    have hbound := ((h.gained m).mp hm).2
    rw [((h'.gained m).mp hm').1] at hbound
    cases hbound

/-- A name is bound after the others. -/
lemma bind {l : List Name} (h : Gains g g₁ l) (hname : g₁.object? name = none) (object : S.Object) :
    Gains g (g₁.bind name object) (name :: l) where
  keeps m o hm := by
    have hm₁ := h.keeps m o hm
    have hne : m ≠ name := by
      rintro rfl
      rw [hname] at hm₁
      cases hm₁
    rw [object?_bind_of_ne _ hne, hm₁]
  gained m := by
    rw [List.mem_cons, h.gained]
    by_cases hne : m = name
    · subst hne
      have hnone : g.object? m = none := by
        cases hm : g.object? m with
        | none => rfl
        | some o => exact absurd (hname.symm.trans (h.keeps m o hm)) (by simp)
      simp [hnone, object?_bind_self]
    · simp [hne, object?_bind_of_ne]
  once := by
    refine List.nodup_cons.mpr ⟨fun hmem => ?_, h.once⟩
    have hbound := ((h.gained name).mp hmem).2
    rw [hname] at hbound
    cases hbound

/-- Nothing but the finished objects matters. -/
lemma of_object? {l : List Name} (h : Gains g g₁ l) (hg : ∀ m, g₂.object? m = g₁.object? m) :
    Gains g g₂ l where
  keeps m o hm := (hg m).trans (h.keeps m o hm)
  gained m := by rw [hg, h.gained]
  once := h.once

end Gains

end Registry

end InstanceRegistry
