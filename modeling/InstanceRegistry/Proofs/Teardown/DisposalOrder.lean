import InstanceRegistry.Proofs.Registry.Relations
import InstanceRegistry.Proofs.Teardown.Order

/-!
The order of the disposers in the destruction of a name and of all names, when the registry knows
of disposers, dependencies and containments only.

* `Registry.Wired`: such registries; what a name contains counts it among its dependents;
* `DisposesInOrder`: a run whose disposers keep to the dependencies and containments;
* `disposal_order`: when the destructions of a registry keep to them;
* `leaning`, `nested`: a registry whose destructions do, and one whose destructions do not.
-/

namespace InstanceRegistry

variable {S : Setup} {caller : Caller S} {r : S.Index}

open Relation (ReflTransGen TransGen)

/-! ### Wired registries -/

/-- A registry without relations, after any number of disposers, dependencies and containments were
registered for names that are not aliases. -/
inductive Registry.Wired : Registry S → Prop
  | fresh {g : Registry S} (h : g.relations = {}) : Wired g
  | onDestroy {g : Registry S} (h : Wired g) (name : Name) (disposer : S.Disposer) :
      Wired (g.apply (.onDestroy name disposer)).registry
  | depend {g : Registry S} (h : Wired g) {dependent dependency : Name}
      (hdependent : g.aliases.isAlias dependent = false)
      (hdependency : g.aliases.isAlias dependency = false) :
      Wired (g.apply (.depend dependent dependency)).registry
  | contain {g : Registry S} (h : Wired g) {outer inner : Name}
      (houter : g.aliases.isAlias outer = false) (hinner : g.aliases.isAlias inner = false) :
      Wired (g.apply (.contain outer inner)).registry

namespace Registry

lemma canonical_of_isAlias_eq_false {g : Registry S} {name : Name}
    (h : g.aliases.isAlias name = false) : g.canonical name = name := by
  have hnone : g.aliases.targets.get? name = none := by
    rw [← Option.not_isSome_iff_eq_none, NameMap.isSome_get?_iff]
    exact of_decide_eq_false h
  unfold canonical AliasTable.canonical
  cases g.aliases.size with
  | zero => rfl
  | succ hops => simp [AliasTable.follow, hnone]

lemma mem_dependentsOf_depend {g : Registry S} {dependent dependency x y : Name}
    (h : g.aliases.isAlias dependency = false) :
    x ∈ (g.apply (.depend dependent dependency)).registry.dependentsOf y ↔
      (y = dependency ∧ x = dependent) ∨ x ∈ g.dependentsOf y := by
  rw [mem_dependentsOf_apply_depend, canonical_of_isAlias_eq_false h]

/-- A pair of names that is contained already must be known as a dependency. -/
lemma mem_dependentsOf_contain {g : Registry S} {outer inner x y : Name}
    (h : g.aliases.isAlias inner = false)
    (hknown : inner ∈ g.containedIn outer → outer ∈ g.dependentsOf inner) :
    x ∈ (g.apply (.contain outer inner)).registry.dependentsOf y ↔
      (y = inner ∧ x = outer) ∨ x ∈ g.dependentsOf y := by
  rw [mem_dependentsOf_apply_contain, canonical_of_isAlias_eq_false h]
  by_cases hlinked : inner ∈ g.containedIn outer
  · refine ⟨Or.imp_left And.right, ?_⟩
    rintro (⟨rfl, rfl⟩ | hx)
    · exact Or.inr (hknown hlinked)
    · exact Or.inr hx
  · rw [and_iff_right hlinked]

/-- A container depends on what it contains. -/
theorem Wired.mem_dependentsOf_of_mem_containedIn {g : Registry S} (hg : g.Wired) {x y : Name}
    (h : y ∈ g.containedIn x) : x ∈ g.dependentsOf y := by
  induction hg generalizing x y with
  | @fresh g hfresh =>
      have hnone : g.containedIn x = [] := by rw [containedIn, hfresh]; rfl
      rw [hnone] at h
      cases h
  | onDestroy _ _ _ ih => exact ih h
  | depend _ _ hdependency ih =>
      rw [mem_dependentsOf_depend hdependency]
      have hsame : y ∈ _ := h
      simp only [apply, Registry.depend, containedIn, Relations.contents_depend] at hsame
      exact Or.inr (ih hsame)
  | contain _ _ hinner ih =>
      rw [mem_dependentsOf_contain hinner ih]
      rcases mem_containedIn_contain.mp h with ⟨rfl, rfl⟩ | h
      · exact Or.inl ⟨rfl, rfl⟩
      · exact Or.inr (ih h)

lemma Wired.precedes_iff {g : Registry S} (hg : g.Wired) {x y : Name} :
    g.Precedes x y ↔ x ∈ g.dependentsOf y :=
  ⟨fun h => h.elim id hg.mem_dependentsOf_of_mem_containedIn, Or.inl⟩

/-- Names that can be ranked are not to go before themselves. -/
lemma not_transGen_precedes_of_rank {g : Registry S} (rank : Name → ℕ)
    (h : ∀ x y, g.Precedes x y → rank x < rank y) (x : Name) : ¬ TransGen g.Precedes x x := by
  intro hcycle
  have hrank : TransGen (· < ·) (rank x) (rank x) := hcycle.lift rank h
  rw [Relation.transGen_eq_self] at hrank
  exact Nat.lt_irrefl _ hrank

end Registry

/-! ### Destructions -/

/-- The run of the script ends, and no disposer that it starts comes after the disposer of a name
that it is to go before. -/
def DisposesInOrder (caller : Caller S) (r : S.Index) (s : Script S Unit) (w : World S) : Prop :=
  ∃ order w', Ends caller s w () w' ∧
    w'.seen (Entry.disposal? r) = w.seen (Entry.disposal? r) ++ order ∧
    order.Pairwise fun earlier later => ¬ TransGen (w.registry r).Precedes later earlier

lemma silentTeardown_disposal (h : ∀ d, KeepsOff caller r (Entry.disposal? r) (caller.disposer d)) :
    SilentTeardown caller r (Entry.disposal? r) where
  disposer := h
  notice _ _ := rfl
  event _ _ := rfl

/-- The destruction of all names destroys those that have disposers, the last one first. -/
lemma Clears.of_destroyAll {g h : Registry S} {lines : List (Entry S)}
    (hc : Clears r g [.destroyAll] lines h) :
    ∃ m l,
      Clears r { g with inDestruction := true } (g.disposerNames.reverse.map Task.destroy) l m ∧
      lines.filterMap (Entry.disposal? r) = l.filterMap (Entry.disposal? r) := by
  cases hc with
  | @cons _ _ _ _ lines rest =>
      have hanswer : (g.perform .destroyAll).answer ++ [] =
          g.disposerNames.reverse.map Task.destroy ++ [.reset] := List.append_nil _
      rw [hanswer] at rest
      obtain ⟨m, l₁, l₂, hfirst, hlast, rfl⟩ := rest.of_append
      cases hlast with
      | @cons _ _ _ _ l₂ hnil =>
          cases hnil
          refine ⟨m, l₁, hfirst, ?_⟩
          simp only [List.filterMap_append, Registry.filterMap_disposal?_taskLines]
          exact List.append_nil _

/-- **When disposers run in order**: the destructions of a wired registry keep to its dependencies
and containments if no name draws in one that is to go after it. Such a name runs its disposer too
late in its own destruction. -/
theorem disposal_order {w : World S} (hwired : (w.registry r).Wired)
    (hacyclic : ∀ x, ¬ TransGen (w.registry r).Precedes x x)
    (hdisposers : ∀ d, KeepsOff caller r (Entry.disposal? r) (caller.disposer d))
    (hobserver : QuietlyObserved caller r (Entry.disposal? r) (w.registry r)) :
    ((w.registry r).Untangled →
      (∀ n, DisposesInOrder caller r (Script.destroy r n) w) ∧
        DisposesInOrder caller r (Script.destroyAll r) w) ∧
    ∀ y u, (w.registry r).Precedes y u → (w.registry r).DrawsIn y u →
      ((w.registry r).disposers.get? y).isSome → ((w.registry r).disposers.get? u).isSome →
      ∃ before after w', Ends caller (Script.destroy r y) w () w' ∧
        w'.seen (Entry.disposal? r) =
          w.seen (Entry.disposal? r) ++ (before ++ y :: after) ∧ u ∈ before := by
  have hs := silentTeardown_disposal hdisposers
  have hcontain : ∀ x y, y ∈ (w.registry r).containedIn x → x ∈ (w.registry r).dependentsOf y :=
    fun _ _ h => hwired.mem_dependentsOf_of_mem_containedIn h
  refine ⟨fun huntangled => ⟨fun n => ?_, ?_⟩, fun y u hprecedes hdraws hy hu => ?_⟩
  · obtain ⟨lines, h, w', hc, hends, hw'⟩ := hs.exists_ends_destroy n hobserver
    have hroots : Clears r (w.registry r) ([n].map Task.destroy) lines h := hc
    exact ⟨_, w', hends, hw'.seen,
      hroots.pairwise_not_precedes hcontain hacyclic huntangled⟩
  · obtain ⟨lines, h, w', hc, hends, hw'⟩ := hs.exists_ends_destroyAll hobserver
    obtain ⟨m, l, hroots, hlines⟩ := hc.of_destroyAll
    refine ⟨_, w', hends, hw'.seen, ?_⟩
    rw [List.filterMap_append, filterMap_disposal?_lines, List.nil_append, hlines]
    exact hroots.pairwise_not_precedes hcontain hacyclic huntangled
  · obtain ⟨lines, h, w', hc, hends, hw'⟩ := hs.exists_ends_destroy y hobserver
    have hne : u ≠ y := fun e => hacyclic y (TransGen.single (e ▸ hprecedes))
    obtain ⟨before, after, horder, hmem⟩ := hc.exists_disposal_before hne hy hu hdraws
    exact ⟨before, after, w', hends, horder ▸ hw'.seen, hmem⟩

/-! ### Two small registries -/

section Small

/-- One registry, with disposers and nothing else from outside. -/
def bare : Setup := ⟨.basic, 1, Empty, Unit, Empty, Unit, Empty⟩

/-- The number of the registry. -/
def bareIndex : bare.Index := Fin.mk 0 Nat.one_pos

/-- Disposers that do nothing. -/
def bareCaller : Caller bare where
  factory f := f.elim
  disposer _ := .done (.ok ())
  observer o _ := o.elim

/-- The registry as the only one of a world. -/
def Registry.alone (g : Registry bare) : World bare := ⟨#v[g], (), 0, []⟩

/-- Three names with disposers. -/
def bareNames : Registry bare :=
  { disposers := ((NameMap.empty.insert "outer" ()).insert "middle" ()).insert "inner" () }

/-- The outer name depends on the middle one, which contains the inner one. -/
def leaning : Registry bare :=
  ((bareNames.apply (.depend "outer" "middle")).registry.apply (.contain "middle" "inner")).registry

/-- The outer name contains the middle one, which contains the inner one. -/
def nested : Registry bare :=
  ((bareNames.apply (.contain "outer" "middle")).registry.apply
    (.contain "middle" "inner")).registry

lemma bareCaller_keepsOff (d : bare.Disposer) :
    KeepsOff bareCaller bareIndex (Entry.disposal? bareIndex) (bareCaller.disposer d) :=
  keepsOff_done _

lemma quietlyObserved_of_observer {g : Registry bare} :
    QuietlyObserved bareCaller bareIndex (Entry.disposal? bareIndex) g := fun o => o.elim

lemma wired_leaning : leaning.Wired :=
  ((Registry.Wired.fresh rfl).depend rfl rfl).contain rfl rfl

lemma wired_nested : nested.Wired :=
  ((Registry.Wired.fresh rfl).contain rfl rfl).contain rfl rfl

lemma precedes_leaning {x y : Name} :
    leaning.Precedes x y ↔ (y = "inner" ∧ x = "middle") ∨ (y = "middle" ∧ x = "outer") := by
  have hnone : x ∉ bareNames.dependentsOf y := List.not_mem_nil
  have hfirst : ("inner" : Name) ∉
      (bareNames.apply (.depend "outer" "middle")).registry.containedIn "middle" :=
    List.not_mem_nil
  rw [wired_leaning.precedes_iff, leaning,
    Registry.mem_dependentsOf_contain rfl fun h => absurd h hfirst,
    Registry.mem_dependentsOf_depend rfl]
  simp only [hnone, or_false]

lemma precedes_nested {x y : Name} :
    nested.Precedes x y ↔ (y = "inner" ∧ x = "middle") ∨ (y = "middle" ∧ x = "outer") := by
  have hnone : x ∉ bareNames.dependentsOf y := List.not_mem_nil
  have hbefore : ("middle" : Name) ∉ bareNames.containedIn "outer" := List.not_mem_nil
  have hfirst : ("inner" : Name) ∉
      (bareNames.apply (.contain "outer" "middle")).registry.containedIn "middle" := by decide
  rw [wired_nested.precedes_iff, nested,
    Registry.mem_dependentsOf_contain rfl fun h => absurd h hfirst,
    Registry.mem_dependentsOf_contain rfl fun h => absurd h hbefore]
  simp only [hnone, or_false]

/-- The place of a name from the outside. -/
def depth (name : Name) : ℕ := if name = "outer" then 0 else if name = "middle" then 1 else 2

lemma depth_lt {x y : Name}
    (h : (y = "inner" ∧ x = "middle") ∨ (y = "middle" ∧ x = "outer")) : depth x < depth y := by
  rcases h with ⟨rfl, rfl⟩ | ⟨rfl, rfl⟩ <;> decide

lemma untangled_leaning : leaning.Untangled := by
  have hcontent : ∀ b, b ∉ leaning.containedIn "outer" := by
    intro b hb
    rcases Registry.mem_containedIn_contain.mp hb with ⟨h, -⟩ | h
    · exact absurd h (by decide)
    · exact List.not_mem_nil h
  have hdependent : ∀ b, b ∉ leaning.dependentsOf "outer" := by
    intro b hb
    rcases precedes_leaning.mp (Or.inl hb) with ⟨h, -⟩ | ⟨h, -⟩
    · exact absurd h (by decide)
    · exact absurd h (by decide)
  rintro y u hprecedes ⟨x, hx, hreach⟩
  rcases precedes_leaning.mp hprecedes with ⟨rfl, rfl⟩ | ⟨-, rfl⟩
  · -- Only the outer name depends on the middle one, and it takes nothing along.
    obtain ⟨-, rfl⟩ := (precedes_leaning.mp (Or.inl hx)).resolve_left
      fun h => absurd h.1 (by decide)
    rcases hreach.cases_head with h | ⟨b, hstep, -⟩
    · exact absurd h (by decide)
    · exact hstep.elim (hdependent b) (hcontent b)
  · exact hdependent x hx

/-- Without containers in containers, all disposers run in order. -/
theorem disposal_order_leaning :
    leaning.Wired ∧ (∀ x, ¬ TransGen leaning.Precedes x x) ∧ leaning.Untangled ∧
      (∀ n, DisposesInOrder bareCaller bareIndex (Script.destroy bareIndex n) leaning.alone) ∧
      DisposesInOrder bareCaller bareIndex (Script.destroyAll bareIndex) leaning.alone := by
  have hacyclic : ∀ x, ¬ TransGen leaning.Precedes x x :=
    Registry.not_transGen_precedes_of_rank depth fun _ _ h => depth_lt (precedes_leaning.mp h)
  have horder := @disposal_order bare bareCaller bareIndex leaning.alone wired_leaning hacyclic
    bareCaller_keepsOff quietlyObserved_of_observer
  exact ⟨wired_leaning, hacyclic, untangled_leaning, horder.1 untangled_leaning⟩

/-- The container of the middle name draws in the inner one, which the middle one contains. So the
inner name is destroyed before the middle one. -/
theorem nested_disposes_out_of_order :
    nested.Wired ∧ (∀ x, ¬ TransGen nested.Precedes x x) ∧
      (∀ d, KeepsOff bareCaller bareIndex (Entry.disposal? bareIndex) (bareCaller.disposer d)) ∧
      nested.Precedes "middle" "inner" ∧
      (∃ w', Ends bareCaller (Script.destroy bareIndex "middle") nested.alone () w' ∧
        w'.seen (Entry.disposal? bareIndex) = ["outer", "inner", "middle"]) ∧
      ¬ DisposesInOrder bareCaller bareIndex (Script.destroy bareIndex "middle") nested.alone := by
  have hends : Ends bareCaller (Script.destroy bareIndex "middle") nested.alone ()
      (run bareCaller 30
        (Config.start (Script.destroy bareIndex "middle") nested.alone)).world :=
    Ends.of_result? (by decide)
  have hseen : (run bareCaller 30 (Config.start (Script.destroy bareIndex "middle")
      nested.alone)).world.seen (Entry.disposal? bareIndex) = ["outer", "inner", "middle"] := by
    decide
  have hprecedes : nested.Precedes "middle" "inner" := precedes_nested.mpr (Or.inl ⟨rfl, rfl⟩)
  refine ⟨wired_nested, ?_, bareCaller_keepsOff, hprecedes, ⟨_, hends, hseen⟩, ?_⟩
  · exact Registry.not_transGen_precedes_of_rank depth fun _ _ h => depth_lt (precedes_nested.mp h)
  · rintro ⟨order, w', hends', hseen', hpairwise⟩
    obtain rfl := (hends.unique hends').2
    obtain rfl : order = ["outer", "inner", "middle"] := (hseen'.symm.trans hseen)
    have hlater := (List.pairwise_cons.mp (List.pairwise_cons.mp hpairwise).2).1 "middle"
    exact hlater List.mem_cons_self (TransGen.single hprecedes)

end Small

end InstanceRegistry
