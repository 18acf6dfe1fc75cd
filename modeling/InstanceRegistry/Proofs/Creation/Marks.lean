import InstanceRegistry.Proofs.Run.Answers

/-!
The marks of the names that are being created. They mirror the stack of the creations under way,
however deep these are nested and however they end, as long as the exclusions stay the same while
any creation is under way.

* `Moment.Mirrors`: the marks are those of the tracked names that are being created;
* `Moment.Mirrors.moves`: every deed keeps that;
* `Config.answer_ne`: no request fails for the lack of a mark;
* `Config.Refuses`, `Config.refuses`: a request that is refused for the mark of its name;
* `marks_mirror_creations`: all along a run;
* `marks_mirror_creations_asking`: a factory that asks for its own name.
-/

namespace InstanceRegistry

variable {S : Setup} {α : Type} {caller : Caller S} {r : S.Index} {name : Name}

/-! ### Marks and creations -/

namespace Moment

variable {m m' : Moment S} {deed : Deed S}

/-- The marks are those of the tracked names that are being created, and no such name is being
created twice. -/
structure Mirrors (m : Moment S) : Prop where
  marked : ∀ n, n ∈ m.registry.inCreation ↔ n ∈ m.creations ∧ n ∉ m.registry.excluded
  once : ∀ n, n ∉ m.registry.excluded → m.creations.count n ≤ 1

/-- The exclusions stay the same if a creation is under way. -/
def Fixes (m m' : Moment S) : Prop :=
  m.creations ≠ [] → ∀ n, n ∈ m'.registry.excluded ↔ n ∈ m.registry.excluded

/-- Nothing but creations, marks and exclusions matters. -/
lemma Mirrors.of_same (h : m.Mirrors) (hfixed : m.Fixes m')
    (hcreations : m'.creations = m.creations)
    (hmarks : m'.registry.inCreation = m.registry.inCreation) : m'.Mirrors := by
  by_cases hnone : m.creations = []
  · constructor
    · intro n
      rw [hmarks, h.marked, hcreations, hnone]
      simp
    · intro n _
      simp [hcreations, hnone]
  · constructor
    · intro n
      rw [hmarks, h.marked, hcreations, hfixed hnone]
    · intro n hn
      rw [hcreations]
      exact h.once n (mt (hfixed hnone n).mpr hn)

/-- A creation that begins marks its name, which was not being created if it is tracked. -/
lemma Mirrors.enter (h : m.Mirrors) {g : Registry S} {opened : Bool}
    (hdemand : m.registry.demand name = .create g opened) :
    ({ m with creations := name :: m.creations, registry := g } : Moment S).Mirrors := by
  have hexcluded : g.excluded = m.registry.excluded :=
    (Registry.AgreesOutside.of_demand hdemand).excluded
  constructor
  · intro n
    show n ∈ g.inCreation ↔ n ∈ name :: m.creations ∧ n ∉ g.excluded
    rw [Registry.mem_inCreation_iff_of_demand hdemand, h.marked, hexcluded, List.mem_cons]
    by_cases hn : n = name
    · subst hn
      tauto
    · tauto
  · intro n hn
    have hn' : n ∉ m.registry.excluded := hexcluded ▸ hn
    show (name :: m.creations).count n ≤ 1
    by_cases hname : name = n
    · subst hname
      have hmark := (Registry.mem_inCreation_of_demand hdemand hn').1
      have hended : name ∉ m.creations := fun hmem => hmark ((h.marked name).mpr ⟨hmem, hn'⟩)
      rw [List.count_cons_self, List.count_eq_zero.mpr hended]
    · rw [List.count_cons_of_ne hname]
      exact h.once n hn'

/-- A creation that ends takes the mark of its name away, which is not being created any more if it
is tracked. -/
lemma Mirrors.leave (h : m.Mirrors) {names : List Name} {opened : Bool}
    {result : Except Error S.Object} (hcreations : m.creations = name :: names) :
    (({ m with creations := names } : Moment S).after
      (m.registry.finishCreation name opened result)).Mirrors := by
  have hexcluded : (m.registry.finishCreation name opened result).registry.excluded =
      m.registry.excluded := (Registry.AgreesOutside.finishCreation ..).excluded
  have honce : ∀ n, n ∉ m.registry.excluded → (name :: names).count n ≤ 1 :=
    fun n hn => hcreations ▸ h.once n hn
  constructor
  · intro n
    show n ∈ (m.registry.finishCreation name opened result).registry.inCreation ↔
      n ∈ names ∧ n ∉ (m.registry.finishCreation name opened result).registry.excluded
    rw [Registry.mem_inCreation_finishCreation_iff, h.marked, hexcluded, hcreations, List.mem_cons]
    by_cases hn : n = name
    · subst hn
      have hended : n ∉ m.registry.excluded → n ∉ names := fun hn hmem => by
        have hcount := honce n hn
        rw [List.count_cons_self] at hcount
        have hpos := List.count_pos_iff.mpr hmem
        omega
      tauto
    · tauto
  · intro n hn
    have hcount := honce n (hexcluded ▸ hn)
    show names.count n ≤ 1
    rw [List.count_cons] at hcount
    omega

/-- The marks mirror the creations whatever is done. -/
lemma Mirrors.moves (h : m.Mirrors) (hmoves : m.Moves deed m') (hfixed : m.Fixes m') :
    m'.Mirrors := by
  cases hmoves with
  | idle => exact h
  | update u => exact h.of_same hfixed rfl (Registry.inCreation_apply m.registry u)
  | @take other early factory g hlookup =>
      have hmarks : g.inCreation = m.registry.inCreation := by
        rw [Registry.eq_of_lookup_eq_expose hlookup]
      exact h.of_same hfixed rfl hmarks
  | expose other factory result =>
      exact h.of_same hfixed rfl
        (Registry.inCreation_finishExposure m.registry other factory result)
  | enter hdemand => exact h.enter hdemand
  | leave opened result hcreations => exact h.leave hcreations
  | announce => exact h.of_same hfixed rfl rfl
  | task t => exact h.of_same hfixed rfl (Registry.inCreation_perform m.registry t)
  | fail other failure => exact h.of_same hfixed rfl rfl

/-- Outside of all creations nothing is marked. -/
lemma Mirrors.inCreation_eq (h : m.Mirrors) (hnone : m.creations = []) :
    m.registry.inCreation = ∅ := by
  refine NameMap.eq_empty_of_forall_not_mem fun n hn => ?_
  have hmem := ((h.marked n).mp hn).1
  rw [hnone] at hmem
  cases hmem

end Moment

/-! ### Requests -/

namespace Config

variable {c : Config S α}

/-- No request is answered for the lack of a mark. -/
lemma answer_ne (h : (c.moment r).Mirrors) (other : Name) :
    ¬ c.Answers r name (.error (.notInCreation other)) := by
  intro hanswers
  obtain ⟨role, opened, result, next, below, w, rfl, hanswer⟩ :=
    hanswers.exists_ended (by simp) (by simp)
  have hmem : name ∈ (Stack.creating r name opened next below).creations r :=
    List.mem_of_mem_head? (congrArg List.head? (if_pos rfl))
  refine Registry.answer_finishCreation_ne ?_ hanswer
  by_cases hexcluded : name ∈ (w.registry r).excluded
  · exact Or.inr hexcluded
  · exact Or.inl ((h.marked name).mpr ⟨hmem, hexcluded⟩)

variable (caller r name) in
/-- A request for the name is refused, because the name is being created: its factory does not run,
and nothing changes but the log. -/
def Refuses (c : Config S α) : Prop :=
  ∀ {role : Role} (factory : S.Factory) (next : Except Error S.Object → Script S (role.Result S α))
    (stack : Stack S α role) (w : World S),
    c = ⟨role, .script (.demand r name factory next), stack, w⟩ →
      step caller c =
        ⟨role, .script (next (.error (.inCreation name))), stack, w.log r [.creating name]⟩

/-- A tracked name that is being created and not bound is not created again. -/
lemma refuses (h : (c.moment r).Mirrors) (hcreated : name ∈ c.stack.creations r)
    (htracked : name ∉ (c.world.registry r).excluded)
    (hbound : (c.world.registry r).object? name = none)
    (hlive : (c.world.registry r).inDestruction = false) : c.Refuses caller r name := by
  intro role factory next stack w hc
  subst hc
  have hmark : name ∈ (w.registry r).inCreation := (h.marked name).mpr ⟨hcreated, htracked⟩
  have hdemand := Registry.demand_of_inCreation hbound hlive htracked hmark
  simp only [step, stepScript, hdemand]

end Config

/-! ### Runs -/

/-- **The marks mirror the creations**: when nothing is marked at its beginning and the exclusions
stay the same while creations are under way, then at every moment of a run the marks are those of
the tracked names whose factories run, each of which runs once. A request for such a name is
refused, no request fails for the lack of a mark, and nothing is marked outside of all creations. -/
theorem marks_mirror_creations (r : S.Index) (s : Script S α) (w : World S) (n : ℕ)
    (hstart : (w.registry r).inCreation = ∅)
    (hfixed : ∀ k < n, (run caller k (Config.start s w)).stack.creations r ≠ [] → ∀ name,
      name ∈ ((run caller (k + 1) (Config.start s w)).world.registry r).excluded ↔
        name ∈ ((run caller k (Config.start s w)).world.registry r).excluded) :
    ∀ k ≤ n,
      (∀ name, name ∈ ((run caller k (Config.start s w)).world.registry r).inCreation ↔
        name ∈ (run caller k (Config.start s w)).stack.creations r ∧
          name ∉ ((run caller k (Config.start s w)).world.registry r).excluded) ∧
      (∀ name, name ∉ ((run caller k (Config.start s w)).world.registry r).excluded →
        ((run caller k (Config.start s w)).stack.creations r).count name ≤ 1) ∧
      (∀ name, name ∈ (run caller k (Config.start s w)).stack.creations r →
        name ∉ ((run caller k (Config.start s w)).world.registry r).excluded →
        ((run caller k (Config.start s w)).world.registry r).object? name = none →
        ((run caller k (Config.start s w)).world.registry r).inDestruction = false →
        (run caller k (Config.start s w)).Refuses caller r name) ∧
      (∀ name other,
        ¬ (run caller k (Config.start s w)).Answers r name (.error (.notInCreation other))) ∧
      ((run caller k (Config.start s w)).stack.creations r = [] →
        ((run caller k (Config.start s w)).world.registry r).inCreation =
          (w.registry r).inCreation) := by
  have hfirst : ((Config.start s w).moment r).Mirrors := by
    constructor
    · intro name
      show name ∈ (w.registry r).inCreation ↔ name ∈ [] ∧ _
      rw [hstart]
      simp [NameMap.mem_def]
    · exact fun _ _ => Nat.zero_le 1
  have hmirrors : ∀ k ≤ n, ((run caller k (Config.start s w)).moment r).Mirrors := by
    intro k hk
    refine run_preserves (fun c => (c.moment r).Mirrors) (Config.start s w) (i := 0) hfirst
      (fun k _ hk hbefore => ?_) k (Nat.zero_le k) hk
    obtain ⟨deed, -, hmoves⟩ := step_moves caller r (run caller k (Config.start s w))
    refine hbefore.moves hmoves fun hcreations => ?_
    have hnext := hfixed k hk hcreations
    rwa [run_succ'] at hnext
  intro k hk
  have h := hmirrors k hk
  refine ⟨h.marked, h.once, fun name => Config.refuses h, fun name => Config.answer_ne h,
    fun hnone => ?_⟩
  rw [hstart]
  exact h.inCreation_eq hnone

/-! ### A factory that asks for its own name -/

/-- One registry, and one factory. -/
def askingSetup : Setup := ⟨.basic, 1, Unit, Empty, Empty, Unit, Empty⟩

/-- The number of the registry. -/
def askingIndex : askingSetup.Index := Fin.mk 0 Nat.one_pos

/-- The factory asks for its own name, and ends with a new object whatever the answer is. -/
def askingCaller : Caller askingSetup where
  factory _ := .demand askingIndex "client" () fun _ =>
    .make (.text "client") fun o => .done (.ok o)
  disposer d := d.elim
  observer o _ := o.elim

/-- A new registry as the only one of a world. -/
def askingWorld : World askingSetup := ⟨#v[{}], (), 0, []⟩

/-- The run in which the client is created. -/
def askingRun (k : ℕ) : Config askingSetup (Except Error askingSetup.Object) :=
  run askingCaller k (Config.start (Script.obtain askingIndex "client" ()) askingWorld)

/-- The client is refused to its own factory, and has no mark after its creation. -/
theorem marks_mirror_creations_asking :
    (askingWorld.registry askingIndex).inCreation = ∅ ∧
    (∀ k < 4, (askingRun k).stack.creations askingIndex ≠ [] → ∀ name,
      name ∈ ((askingRun (k + 1)).world.registry askingIndex).excluded ↔
        name ∈ ((askingRun k).world.registry askingIndex).excluded) ∧
    (askingRun 1).stack.creations askingIndex = ["client"] ∧
    "client" ∈ ((askingRun 1).world.registry askingIndex).inCreation ∧
    (askingRun 1).Refuses askingCaller askingIndex "client" ∧
    (askingRun 4).result? = some (.ok ⟨0, .text "client"⟩) ∧
    ((askingRun 4).world.registry askingIndex).inCreation =
      (askingWorld.registry askingIndex).inCreation := by
  have hstart : (askingWorld.registry askingIndex).inCreation = ∅ := rfl
  have hsame : ∀ k < 4, ((askingRun (k + 1)).world.registry askingIndex).excluded =
      ((askingRun k).world.registry askingIndex).excluded := by decide +kernel
  have hfixed : ∀ k < 4, (askingRun k).stack.creations askingIndex ≠ [] → ∀ name,
      name ∈ ((askingRun (k + 1)).world.registry askingIndex).excluded ↔
        name ∈ ((askingRun k).world.registry askingIndex).excluded :=
    fun k hk _ name => by rw [hsame k hk]
  have hmirrors := marks_mirror_creations askingIndex (Script.obtain askingIndex "client" ())
    askingWorld 4 hstart hfixed
  obtain ⟨hmarked, -, hrefuses, -, -⟩ := hmirrors 1 (by decide)
  have hcreated : "client" ∈ (askingRun 1).stack.creations askingIndex := List.mem_cons_self
  have htracked : "client" ∉ ((askingRun 1).world.registry askingIndex).excluded := by decide
  exact ⟨hstart, hfixed, rfl, (hmarked "client").mpr ⟨hcreated, htracked⟩,
    hrefuses "client" hcreated htracked rfl rfl, rfl, (hmirrors 4 (by decide)).2.2.2.2 rfl⟩

end InstanceRegistry
