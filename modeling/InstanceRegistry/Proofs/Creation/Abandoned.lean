import InstanceRegistry.Proofs.Run.Answers
import InstanceRegistry.Proofs.Run.Nesting

/-!
The marks that are left when no creation is under way. The mark of a name is made and taken away
only while the name is tracked, and the code in between may change that in either direction.

* `Config.Leaves`, `Config.Unmarks`, `Config.Abandons`: a creation of the name ends, and takes the
  mark away or leaves it;
* `Moment.Moves.mem_creations`, `Moment.Moves.mem_inCreation`, `Moment.Moves.mem_inCreation_of_mem`:
  what a deed does to the creations and to the marks;
* `AbandonedBy`, `mem_inCreation_run`: a name is marked because it is being created, or because a
  creation has abandoned its mark;
* `marks_outside_creations`: outside of all creations exactly the abandoned marks are left;
* `marks_outside_creations_restored`, `mark_abandoned`: a factory that excludes its own name, and
  includes it again or not.
-/

namespace InstanceRegistry

variable {S : Setup} {α : Type} {caller : Caller S} {r : S.Index} {name : Name}

/-! ### The end of a creation and its mark -/

namespace Config

/-- The next step ends a creation of the name. -/
def Leaves (r : S.Index) (name : Name) (c : Config S α) : Prop :=
  ∃ opened result, c.Does r (.leave name opened result)

/-- The next step ends a creation of the name while the name is tracked. -/
def Unmarks (r : S.Index) (name : Name) (c : Config S α) : Prop :=
  c.Leaves r name ∧ name ∉ (c.world.registry r).excluded

/-- The next step ends a creation of the name, which is marked, while the name is excluded. -/
def Abandons (r : S.Index) (name : Name) (c : Config S α) : Prop :=
  c.Leaves r name ∧ name ∈ (c.world.registry r).inCreation ∧ name ∈ (c.world.registry r).excluded

end Config

/-! ### Deeds -/

namespace Moment.Moves

variable {m m' : Moment S} {deed : Deed S}

/-- A creation is under way until it ends. -/
lemma mem_creations (h : m.Moves deed m') (hname : name ∈ m.creations) :
    name ∈ m'.creations ∨ ∃ opened result, deed = .leave name opened result := by
  cases h with
  | enter hdemand => exact Or.inl (List.mem_cons_of_mem _ hname)
  | @leave names other opened result hcreations =>
      rw [hcreations, List.mem_cons] at hname
      rcases hname with rfl | hname
      · exact Or.inr ⟨opened, result, rfl⟩
      · exact Or.inl hname
  | _ => exact Or.inl hname

/-- Only a creation that begins makes a mark. -/
lemma mem_inCreation (h : m.Moves deed m') (hname : name ∈ m'.registry.inCreation) :
    name ∈ m.registry.inCreation ∨ name ∈ m'.creations := by
  cases h with
  | idle => exact Or.inl hname
  | update u => exact Or.inl (Registry.inCreation_apply m.registry u ▸ hname)
  | take hlookup =>
      rw [Registry.eq_of_lookup_eq_expose hlookup] at hname
      exact Or.inl hname
  | expose other factory result =>
      exact Or.inl (Registry.inCreation_finishExposure m.registry other factory result ▸ hname)
  | enter hdemand =>
      rcases (Registry.mem_inCreation_iff_of_demand hdemand).mp hname with hbefore | ⟨rfl, -⟩
      · exact Or.inl hbefore
      · exact Or.inr List.mem_cons_self
  | leave opened result hcreations =>
      exact Or.inl (Registry.mem_inCreation_finishCreation_iff.mp hname).1
  | announce => exact Or.inl hname
  | task t => exact Or.inl (Registry.inCreation_perform m.registry t ▸ hname)
  | fail other failure => exact Or.inl hname

/-- Only a creation of the name that ends takes its mark away, and only if the name is tracked. -/
lemma mem_inCreation_of_mem (h : m.Moves deed m') (hname : name ∈ m.registry.inCreation)
    (hkept : ∀ opened result, deed = .leave name opened result → name ∈ m.registry.excluded) :
    name ∈ m'.registry.inCreation := by
  cases h with
  | idle => exact hname
  | update u => exact (Registry.inCreation_apply m.registry u).symm ▸ hname
  | take hlookup =>
      rw [Registry.eq_of_lookup_eq_expose hlookup]
      exact hname
  | expose other factory result =>
      exact (Registry.inCreation_finishExposure m.registry other factory result).symm ▸ hname
  | enter hdemand => exact Registry.mem_inCreation_of_demand_of_mem hdemand hname
  | @leave names other opened result hcreations =>
      refine Registry.mem_inCreation_finishCreation_iff.mpr ⟨hname, ?_⟩
      rintro rfl
      exact hkept opened result rfl
  | announce => exact hname
  | task t => exact (Registry.inCreation_perform m.registry t).symm ▸ hname
  | fail other failure => exact hname

end Moment.Moves

/-! ### Steps -/

namespace Config

variable {c : Config S α}

lemma mem_inCreation_step (hname : name ∈ (c.world.registry r).inCreation)
    (hkept : ¬ c.Unmarks r name) : name ∈ ((step caller c).world.registry r).inCreation := by
  obtain ⟨deed, hdoes, hmoves⟩ := step_moves caller r c
  refine hmoves.mem_inCreation_of_mem hname fun opened result hdeed => ?_
  by_contra htracked
  subst hdeed
  exact hkept ⟨⟨opened, result, hdoes⟩, htracked⟩

lemma Unmarks.not_mem_step (h : c.Unmarks r name) :
    name ∉ ((step caller c).world.registry r).inCreation := by
  obtain ⟨⟨opened, result, hdoes⟩, htracked⟩ := h
  obtain ⟨names, -, hmoment⟩ := hdoes.moment_leave caller
  show name ∉ ((step caller c).moment r).registry.inCreation
  rw [hmoment]
  intro hmem
  exact htracked ((Registry.mem_inCreation_finishCreation_iff.mp hmem).2 rfl)

lemma Abandons.not_unmarks (h : c.Abandons r name) : ¬ c.Unmarks r name :=
  fun hunmarks => hunmarks.2 h.2.2

variable (caller) in
/-- A name that is marked and being created is being created still, or has lost its mark, or has its
mark abandoned. -/
lemma mem_creations_step (hmark : name ∈ (c.world.registry r).inCreation)
    (hname : name ∈ c.stack.creations r) :
    name ∈ (step caller c).stack.creations r ∨ c.Unmarks r name ∨ c.Abandons r name := by
  obtain ⟨deed, hdoes, hmoves⟩ := step_moves caller r c
  rcases hmoves.mem_creations hname with hnext | ⟨opened, result, rfl⟩
  · exact Or.inl hnext
  · have hleaves : c.Leaves r name := ⟨opened, result, hdoes⟩
    by_cases hexcluded : name ∈ (c.world.registry r).excluded
    · exact Or.inr (Or.inr ⟨hleaves, hmark, hexcluded⟩)
    · exact Or.inr (Or.inl ⟨hleaves, hexcluded⟩)

end Config

/-! ### Runs -/

/-- The mark of the name was abandoned within the first steps, and not taken away since. -/
def AbandonedBy (caller : Caller S) (r : S.Index) (name : Name) (c : Config S α) (k : ℕ) : Prop :=
  ∃ i < k, (run caller i c).Abandons r name ∧
    ∀ l, i < l → l < k → ¬ (run caller l c).Unmarks r name

lemma AbandonedBy.succ {c : Config S α} {k : ℕ} (h : AbandonedBy caller r name c k)
    (hkept : ¬ (run caller k c).Unmarks r name) : AbandonedBy caller r name c (k + 1) := by
  obtain ⟨i, hi, habandons, hsince⟩ := h
  refine ⟨i, by omega, habandons, fun l hil hl => ?_⟩
  rcases Nat.lt_succ_iff_lt_or_eq.mp hl with hl | rfl
  · exact hsince l hil hl
  · exact hkept

/-- An abandoned mark stays. -/
lemma AbandonedBy.mem_inCreation {c : Config S α} {k : ℕ} (h : AbandonedBy caller r name c k) :
    name ∈ ((run caller k c).world.registry r).inCreation := by
  obtain ⟨i, hi, habandons, hsince⟩ := h
  refine run_preserves (fun d => name ∈ (d.world.registry r).inCreation) c habandons.2.1
    (fun l hil hl hmem => ?_) k hi.le le_rfl
  refine Config.mem_inCreation_step hmem ?_
  rcases hil.eq_or_lt with rfl | hil
  · exact habandons.not_unmarks
  · exact hsince l hil hl

/-- When nothing is marked at the beginning, a name is marked only while it is being created, or
after a creation has abandoned its mark. -/
lemma mem_inCreation_run {c : Config S α} (hstart : name ∉ (c.world.registry r).inCreation)
    (k : ℕ) (hmark : name ∈ ((run caller k c).world.registry r).inCreation) :
    name ∈ (run caller k c).stack.creations r ∨ AbandonedBy caller r name c k := by
  induction k with
  | zero => exact absurd hmark hstart
  | succ k ih =>
      rw [run_succ'] at hmark ⊢
      have hkept : ¬ (run caller k c).Unmarks r name := fun h => h.not_mem_step hmark
      obtain ⟨deed, -, hmoves⟩ := step_moves caller r (run caller k c)
      rcases hmoves.mem_inCreation hmark with hbefore | hbegins
      · rcases ih hbefore with hcreated | habandoned
        · rcases Config.mem_creations_step caller hbefore hcreated with
            hnext | hunmarks | habandons
          · exact Or.inl hnext
          · exact absurd hunmarks hkept
          · exact Or.inr ⟨k, Nat.lt_succ_self k, habandons, fun l hl hlk => absurd hl (by omega)⟩
        · exact Or.inr (habandoned.succ hkept)
      · exact Or.inl hbegins

/-- **Outside of all creations exactly the abandoned marks are left**: those of the names of which a
creation has ended while the name was excluded, unless a later one has ended while it was tracked.
So nothing is marked if no mark is abandoned. A request for a name without a mark is not refused for
a mark, and begins a creation if the name is not bound and nothing is being destroyed. -/
theorem marks_outside_creations (r : S.Index) (s : Script S α) (w : World S)
    (hstart : (w.registry r).inCreation = ∅) (k : ℕ)
    (hnone : (run caller k (Config.start s w)).stack.creations r = []) :
    (∀ name, name ∈ ((run caller k (Config.start s w)).world.registry r).inCreation ↔
      ∃ i < k, (run caller i (Config.start s w)).Abandons r name ∧
        ∀ l, i < l → l < k → ¬ (run caller l (Config.start s w)).Unmarks r name) ∧
      ((∀ i < k, ∀ name, ¬ (run caller i (Config.start s w)).Abandons r name) →
        ((run caller k (Config.start s w)).world.registry r).inCreation = ∅) ∧
      ∀ name, name ∉ ((run caller k (Config.start s w)).world.registry r).inCreation →
        (∀ other,
          ¬ (run caller k (Config.start s w)).Answers r name (.error (.inCreation other))) ∧
        (((run caller k (Config.start s w)).world.registry r).object? name = none →
          ((run caller k (Config.start s w)).world.registry r).inDestruction = false →
          ∃ g opened, ((run caller k (Config.start s w)).world.registry r).demand name =
            .create g opened) := by
  have hleft : ∀ name, name ∈ ((run caller k (Config.start s w)).world.registry r).inCreation ↔
      AbandonedBy caller r name (Config.start s w) k := by
    intro name
    have hunmarked : name ∉ ((Config.start s w).world.registry r).inCreation := by
      show name ∉ (w.registry r).inCreation
      rw [hstart]
      simp [NameMap.mem_def]
    refine ⟨fun hmark => ?_, AbandonedBy.mem_inCreation⟩
    refine (mem_inCreation_run hunmarked k hmark).resolve_left fun hcreated => ?_
    rw [hnone] at hcreated
    cases hcreated
  refine ⟨hleft, fun hkept => ?_, fun name hunmarked => ⟨fun other hanswers => ?_, ?_⟩⟩
  · refine NameMap.eq_empty_of_forall_not_mem fun name hmark => ?_
    obtain ⟨i, hi, habandons, -⟩ := (hleft name).mp hmark
    exact hkept i hi name habandons
  · exact hunmarked hanswers.does_enter.2.2
  · exact fun hbound hlive => Registry.exists_demand_eq_create hbound hlive hunmarked

/-! ### A factory that excludes its own name -/

/-- One registry, and two factories. -/
def excludingSetup : Setup := ⟨.basic, 1, Bool, Empty, Empty, Unit, Empty⟩

/-- The number of the registry. -/
def excludingIndex : excludingSetup.Index := Fin.mk 0 Nat.one_pos

/-- Both factories exclude the name that they are asked for. One includes it again before it ends,
the other one does not. -/
def excludingCaller : Caller excludingSetup where
  factory restores := .call excludingIndex (.track "client" false) fun _ =>
    .call excludingIndex (.track "client" restores) fun _ =>
      .make (.text "client") fun o => .done (.ok o)
  disposer d := d.elim
  observer o _ := o.elim

/-- A new registry as the only one of a world. -/
def excludingWorld : World excludingSetup := ⟨#v[{}], (), 0, []⟩

/-- The client is created and dropped, and then asked for again. -/
def excluding (restores : Bool) : Script excludingSetup (Except Error excludingSetup.Object) :=
  .demand excludingIndex "client" restores fun _ =>
    .call excludingIndex (.track "client" true) fun _ =>
      .call excludingIndex (.remove "client") fun _ =>
        Script.obtain excludingIndex "client" restores

/-- The run of the script. -/
def excludingRun (restores : Bool) (k : ℕ) :
    Config excludingSetup (Except Error excludingSetup.Object) :=
  run excludingCaller k (Config.start (excluding restores) excludingWorld)

/-- A factory that includes its name again leaves no mark, and the client can be created again. -/
theorem marks_outside_creations_restored :
    (excludingWorld.registry excludingIndex).inCreation = ∅ ∧
    (excludingRun true 7).stack.creations excludingIndex = [] ∧
    "client" ∈ ((excludingRun true 2).world.registry excludingIndex).excluded ∧
    (∀ i < 7, ∀ name, ¬ (excludingRun true i).Abandons excludingIndex name) ∧
    ((excludingRun true 7).world.registry excludingIndex).inCreation = ∅ ∧
    ∃ g opened, ((excludingRun true 7).world.registry excludingIndex).demand "client" =
      .create g opened := by
  have hstart : (excludingWorld.registry excludingIndex).inCreation = ∅ := rfl
  have hnone : (excludingRun true 7).stack.creations excludingIndex = [] := rfl
  have htracked : ∀ i < 7, i ≠ 2 →
      ((excludingRun true i).world.registry excludingIndex).excluded = ∅ := by decide +kernel
  have hkept : ∀ i < 7, ∀ name, ¬ (excludingRun true i).Abandons excludingIndex name := by
    rintro i hi name ⟨⟨opened, result, hdoes⟩, -, hexcluded⟩
    by_cases h : i = 2
    · subst h
      change Config.Does _ ⟨.factory, .script (.call _ _ _), _, _⟩ _ at hdoes
      cases hdoes
    · rw [htracked i hi h] at hexcluded
      exact absurd (NameMap.mem_def.mp hexcluded) List.not_mem_nil
  obtain ⟨-, hempty, hunmarked⟩ := marks_outside_creations excludingIndex (excluding true)
    excludingWorld hstart 7 hnone
  have hmarks : ((excludingRun true 7).world.registry excludingIndex).inCreation = ∅ :=
    hempty hkept
  have hclient : "client" ∉ ((excludingRun true 7).world.registry excludingIndex).inCreation := by
    rw [hmarks]
    exact fun hmem => absurd (NameMap.mem_def.mp hmem) List.not_mem_nil
  exact ⟨hstart, hnone, by decide +kernel, hkept, hmarks, (hunmarked "client" hclient).2 rfl rfl⟩

/-- A factory that leaves its name excluded leaves the mark behind: no creation is under way, and
the client, though it is tracked again and not bound, is refused for being created. -/
theorem mark_abandoned :
    (excludingWorld.registry excludingIndex).inCreation = ∅ ∧
    (excludingRun false 4).Abandons excludingIndex "client" ∧
    (excludingRun false 7).stack.creations excludingIndex = [] ∧
    "client" ∈ ((excludingRun false 7).world.registry excludingIndex).inCreation ∧
    ((excludingRun false 7).world.registry excludingIndex).object? "client" = none ∧
    ((excludingRun false 7).world.registry excludingIndex).inDestruction = false ∧
    (excludingRun false 7).Answers excludingIndex "client" (.error (.inCreation "client")) ∧
    (excludingRun false 8).result? = some (.error (.inCreation "client")) :=
  ⟨rfl, ⟨⟨true, .ok ⟨0, .text "client"⟩, .leave _ _ _⟩, by decide +kernel, by decide +kernel⟩, rfl,
    by decide +kernel, rfl, rfl, .once rfl, rfl⟩

end InstanceRegistry
