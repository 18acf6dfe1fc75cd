import InstanceRegistry.Proofs.Creation.Steps
import InstanceRegistry.Proofs.Run.Calls

/-!
Finite families of names that require each other, and what their creations have in common.

* `Family`: the names and their requirements, which may form cycles;
* `Family.Needs`: a name requires another one directly or by way of others;
* `Family.unstarted`: the number of names that a creation can still start;
* `exists_ends_create`: a request that runs a factory to its end.
-/

namespace InstanceRegistry

variable {S : Setup} {α : Type}

open Relation (ReflTransGen TransGen)

/-- Finitely many names, each with the names that it requires, in order. -/
structure Family where
  names : Finset Name
  requires : Name → List Name
  closed : ∀ n ∈ names, ∀ m ∈ requires n, m ∈ names

namespace Family

variable (d : Family)

/-- The name `n` requires `m` directly. -/
def Requires (n m : Name) : Prop := m ∈ d.requires n

/-- The name `n` is `m`, or requires it directly or by way of others. -/
def Needs (n m : Name) : Prop := ReflTransGen d.Requires n m

/-- The number of names that are neither bound nor being created. -/
def unstarted (g : Registry S) (active : List Name) : ℕ :=
  (d.names.filter fun m => g.object? m = none ∧ m ∉ active).card

variable {d}

/-- A name that starts is not left to be started. -/
lemma unstarted_cons_lt {g : Registry S} {active : List Name} {n : Name} (hn : n ∈ d.names)
    (hbound : g.object? n = none) (hactive : n ∉ active) :
    d.unstarted g (n :: active) < d.unstarted g active := by
  refine Finset.card_lt_card (Finset.ssubset_iff_subset_ne.mpr ⟨fun m hm => ?_, fun heq => ?_⟩)
  · obtain ⟨hm, hnone, hmem⟩ := Finset.mem_filter.mp hm
    exact Finset.mem_filter.mpr ⟨hm, hnone, fun h => hmem (List.mem_cons_of_mem n h)⟩
  · have hmem : n ∈ d.names.filter fun m => g.object? m = none ∧ m ∉ n :: active :=
      heq ▸ Finset.mem_filter.mpr ⟨hn, hbound, hactive⟩
    exact (Finset.mem_filter.mp hmem).2.2 List.mem_cons_self

/-- What is bound meanwhile is not left to be started. -/
lemma unstarted_le_of_gains {g g' : Registry S} {created : List Name}
    (h : Registry.Gains g g' created) (active : List Name) :
    d.unstarted g' active ≤ d.unstarted g active := by
  refine Finset.card_le_card fun m hm => ?_
  obtain ⟨hm, hnone, hmem⟩ := Finset.mem_filter.mp hm
  refine Finset.mem_filter.mpr ⟨hm, ?_, hmem⟩
  by_contra hsome
  have hbound := h.isSome (Option.ne_none_iff_isSome.mp hsome)
  rw [hnone] at hbound
  cases hbound

end Family

/-! ### Creations -/

@[simp] lemma Registry.observer_settle (g : Registry S) (name : Name) (reported : List Error)
    (result : Except Error S.Object) :
    (g.settle name reported result).registry.observer = g.observer := by
  unfold settle
  split
  · rfl
  · split <;> rfl
  · rfl

/-- A name that is neither bound nor being created is created: its factory runs, and what comes of
the creation is settled with its result. -/
theorem exists_ends_create {β : Type} {caller : Caller S} {r : S.Index} {view : Entry S → Option β}
    {w w₁ : World S} {name : Name} {factory : S.Factory} {result : Except Error S.Object}
    (hbound : (w.registry r).object? name = none) (hlive : (w.registry r).inDestruction = false)
    (htracked : name ∉ (w.registry r).excluded) (hunmarked : name ∉ (w.registry r).inCreation)
    (hfactory : Ends caller (caller.factory factory)
      (w.creating r name factory ((w.registry r).entering name)) result w₁)
    (htracked₁ : name ∉ (w₁.registry r).excluded) (hmarked₁ : name ∈ (w₁.registry r).inCreation)
    (hobs : QuietlyObserved caller r view (w₁.registry r)) :
    ∃ opened reported w',
      Ends caller (Script.obtain r name factory) w
        (((w₁.registry r).leaving name opened).settle name reported result).answer w' ∧
      w₁.Becomes r view (((w₁.registry r).leaving name opened).settle name reported result).registry
        (((((w₁.registry r).leaving name opened).settle name reported result).lines r).filterMap
          view) w' := by
  have hdemand := Registry.demand_eq_create hbound hlive htracked hunmarked
  have hfinish := Registry.finishCreation_eq htracked₁ hmarked₁ (w.registry r).suppressed.isNone
    result
  have hq : QuietlyObserved caller r view ((w₁.registry r).finishCreation name
      (w.registry r).suppressed.isNone result).registry := by
    rw [hfinish]
    exact hobs.of_observer (Registry.observer_settle ..)
  obtain ⟨w', hends, hw'⟩ := exists_ends_obtain_create hdemand hfactory hq
  rw [hfinish] at hends hw'
  exact ⟨_, _, w', hends, hw'⟩

end InstanceRegistry
