import InstanceRegistry.Proofs.Creation.Exclusive
import InstanceRegistry.Proofs.Creation.Once
import InstanceRegistry.Proofs.Creation.Steps

/-!
The early object of a name, from the installation of an early factory on. The early factory is out
of the registry while it runs, and its result is put back without another look at the caches. So an
early factory that was running already when another one was installed takes the place of what that
one has handed out.

* `Config.running`: the early factories of one name that run;
* `Config.Handles`, `step_handles`: what a step does to the caches of the name and to them;
* `Config.Finds`: the next step answers a lookup;
* `Config.Stage`, `Config.Stage.next`: where an installed early factory is, and what a step does to
  that;
* `StartedSince`: the early factory that runs has not been running before;
* `HandedOut`, `Follows`: how far it is, from its installation on;
* `early_object_once`: what the lookups of the name yield;
* `early_object_once_retried`, `early_object_replaced`: an early factory that fails once, and one
  that is installed by another one.
-/

namespace InstanceRegistry

variable {S : Setup} {α : Type} {caller : Caller S} {r : S.Index} {name : Name}

/-! ### The early factories of one name -/

/-- The early factories of the name that are running, the innermost first. -/
def Config.running (r : S.Index) (name : Name) (c : Config S α) : List S.Factory :=
  ((c.loans r).filter fun loan => loan.1 = name).map Prod.snd

variable (caller r name) in
/-- What the next step does to the caches of the name and to its early factories that run: it puts
the name into a cache or drops it, or leaves both as they are, or takes an early factory out, or
ends one. -/
inductive Config.Handles (c : Config S α) : Prop
  | changed (h : c.Puts r name ∨ c.Drops r name)
  | kept
      (hcaches : ((step caller c).world.registry r).caches name = (c.world.registry r).caches name)
      (hrunning : (step caller c).running r name = c.running r name)
  | taken {factory : S.Factory}
      (hbefore : (c.world.registry r).caches name = ⟨none, some factory, none⟩)
      (hafter : ((step caller c).world.registry r).caches name = .absent)
      (hrunning : (step caller c).running r name = factory :: c.running r name)
  | ended {factory : S.Factory} {result : Except Error S.Object}
      (hdoes : c.Does r (.expose name factory result))
      (hcaches : ((step caller c).world.registry r).caches name =
        ((c.world.registry r).caches name).expose factory result)
      (hrunning : c.running r name = factory :: (step caller c).running r name)

namespace Moment

variable {m m' : Moment S} {deed : Deed S}

/-- What is cached for a name stays, unless it is put in or dropped, or its early factory is taken
out or ends. -/
lemma caches_moves_eq (hmoves : m.Moves deed m')
    (hexpose : ∀ factory result, deed ≠ .expose name factory result) (htake : deed ≠ .take name)
    (hputs : ¬ deed.Puts name) (hdrops : ¬ deed.Drops name) :
    m'.registry.caches name = m.registry.caches name := by
  cases hmoves with
  | update u =>
      obtain ⟨hremove, hclear⟩ := Deed.ne_of_not_drops_update hdrops
      exact Registry.caches_apply_eq m.registry hputs hremove hclear
  | @take other early factory g hlookup =>
      have hother : name ≠ other := by
        rintro rfl
        exact htake rfl
      exact (Registry.caches_of_lookup hlookup).2.2 name hother
  | expose other factory result =>
      have hother : name ≠ other := by
        rintro rfl
        exact hexpose factory result rfl
      exact Registry.caches_finishExposure_of_ne m.registry hother factory result
  | enter hdemand => exact congrFun (Registry.caches_of_demand hdemand) name
  | @leave names other opened result hcreations =>
      rcases Registry.caches_finishCreation m.registry other opened result with
        hsame | ⟨o, rfl, -, hothers⟩
      · exact congrFun hsame name
      · exact hothers name fun heq => hputs heq.symm
  | task t =>
      obtain ⟨hdestroy, hreset⟩ := Deed.ne_of_not_drops_task hdrops
      exact Registry.caches_perform_eq m.registry hdestroy hreset
  | _ => rfl

end Moment

namespace Config

variable {c : Config S α}

variable (name) in
/-- The early factories of a name that run, when the innermost one of all has been started or
ended. -/
lemma running_eq_of_loans {d : Config S α} {other : Name} {factory : S.Factory}
    (h : d.loans r = (other, factory) :: c.loans r) :
    d.running r name = if other = name then factory :: c.running r name else c.running r name := by
  rw [running, h, List.filter_cons]
  by_cases hother : other = name <;> simp [running, hother]

/-- A step that ends no early factory of the name and lends none. -/
lemma handles_of_loans_eq (hends : ∀ factory result, ¬ c.Does r (.expose name factory result))
    (hchanged : ¬ (c.Puts r name ∨ c.Drops r name))
    (hloans : (step caller c).loans r = c.loans r) : c.Handles caller r name := by
  rw [not_or] at hchanged
  obtain ⟨deed, hdoes, hmoves⟩ := step_moves caller r c
  refine .kept ?_ (by rw [running, running, hloans])
  by_cases htake : deed = .take name
  · subst htake
    rw [hdoes.registry_take (by rw [exposures_eq, exposures_eq, hloans])]
  · exact Moment.caches_moves_eq hmoves
      (fun factory result heq => hends factory result (heq ▸ hdoes)) htake
      (fun hputs => hchanged.1 ⟨deed, hdoes, hputs⟩)
      fun hdrops => hchanged.2 ⟨deed, hdoes, hdrops⟩

end Config

section Does

variable {c : Config S α} {factory factory' : S.Factory} {result result' : Except Error S.Object}

/-- One early factory at most ends in a step. -/
lemma Config.Does.expose_inj (h : c.Does r (.expose name factory result))
    (h' : c.Does r (.expose name factory' result')) : factory = factory' ∧ result = result' := by
  cases h
  cases h'
  exact ⟨rfl, rfl⟩

variable (caller) in
lemma Config.Does.running_expose (h : c.Does r (.expose name factory result)) :
    c.running r name = factory :: (step caller c).running r name := by
  rw [Config.running_eq_of_loans name (h.loans_expose caller), if_pos rfl]

/-- Without one less of them running, no early factory has ended. -/
lemma Config.not_expose_of_length_le
    (h : (c.running r name).length ≤ ((step caller c).running r name).length) :
    ¬ c.Does r (.expose name factory result) := by
  intro hdoes
  rw [hdoes.running_expose caller, List.length_cons] at h
  omega

end Does

variable (caller r name) in
/-- **What a step does to the caches of a name** and to its early factories that run. -/
theorem step_handles (c : Config S α) : c.Handles caller r name := by
  by_cases hends : ∃ factory result, c.Does r (.expose name factory result)
  · obtain ⟨factory, result, hdoes⟩ := hends
    refine .ended hdoes ?_ ?_
    · show ((step caller c).moment r).registry.caches name = _
      rw [hdoes.moment_expose]
      exact Registry.caches_finishExposure_self (c.world.registry r) name factory result
    · exact hdoes.running_expose caller
  have hends' : ∀ factory result, ¬ c.Does r (.expose name factory result) :=
    fun factory result hdoes => hends ⟨factory, result, hdoes⟩
  by_cases hchanged : c.Puts r name ∨ c.Drops r name
  · exact .changed hchanged
  rcases step_loans caller r c with
    hloans | ⟨other, early, factory, g, hlookup, hregistry, hloans⟩ |
      ⟨other, factory, result, hdoes⟩
  · exact Config.handles_of_loans_eq hends' hchanged hloans
  · obtain ⟨hinstalled, habsent, hothers⟩ := Registry.caches_of_lookup hlookup
    have hrunning := Config.running_eq_of_loans name hloans
    by_cases hother : other = name
    · subst hother
      rw [if_pos rfl] at hrunning
      exact .taken hinstalled (hregistry ▸ habsent) hrunning
    · rw [if_neg hother] at hrunning
      exact .kept (hregistry ▸ hothers name (Ne.symm hother)) hrunning
  · have hother : name ≠ other := by
      rintro rfl
      exact hends' factory result hdoes
    have hrunning := Config.running_eq_of_loans name (hdoes.loans_expose caller)
    rw [if_neg hother.symm] at hrunning
    refine .kept ?_ hrunning.symm
    show ((step caller c).moment r).registry.caches name = _
    rw [hdoes.moment_expose]
    exact Registry.caches_finishExposure_of_ne (c.world.registry r) hother factory result

/-! ### Lookups -/

/-- The configurations whose next step answers a lookup of the name: at once, or because the early
factory that the lookup has started ends. -/
inductive Config.Finds (r : S.Index) (name : Name) :
    Config S α → Except Error (Option S.Object) → Prop
  | once {role : Role} {early : Bool}
      {next : Except Error (Option S.Object) → Script S (role.Result S α)}
      {stack : Stack S α role} {w : World S} {object : Option S.Object}
      (h : (w.registry r).lookup name early = .answered object) :
      Finds r name ⟨role, .script (.find r name early next), stack, w⟩ (.ok object)
  | ended {role : Role} {factory : S.Factory} {result : Except Error S.Object}
      {next : Except Error (Option S.Object) → Script S (role.Result S α)} {below : Stack S α role}
      {w : World S} :
      Finds r name ⟨.factory, .script (.done result), .exposing r name factory next below, w⟩
        ((w.registry r).finishExposure name factory result).answer

/-- A lookup that yields an object finds it in a cache, or is the one that has started the early
factory. -/
lemma Config.Finds.cases_object {c : Config S α} {o : S.Object}
    (h : c.Finds r name (.ok (some o))) :
    ((c.world.registry r).caches name).object = some o ∨
      ((c.world.registry r).caches name).reference = some o ∨
      ∃ factory, c.Does r (.expose name factory (.ok o)) := by
  generalize hanswer : (Except.ok (some o) : Except Error (Option S.Object)) = answer at h
  cases h with
  | once hlookup =>
      obtain rfl := Except.ok.inj hanswer
      rcases Registry.object_or_reference_of_lookup hlookup with hobject | ⟨-, hreference⟩
      · exact Or.inl hobject
      · exact Or.inr (Or.inl hreference)
  | @ended role factory result next below w =>
      cases result with
      | ok object =>
          obtain rfl : o = object := Option.some.inj (Except.ok.inj hanswer)
          exact Or.inr (Or.inr ⟨factory, .expose name factory (.ok o)⟩)
      | error e => cases hanswer

/-- The failure of an early factory is the answer of the lookup that has started it. -/
lemma Config.Does.finds {c : Config S α} {factory : S.Factory} {e : Error}
    (h : c.Does r (.expose name factory (.error e))) : c.Finds r name (.error e) := by
  cases h
  exact .ended

/-- Without anything in the caches, a lookup finds nothing and starts nothing. -/
lemma Registry.lookup_of_absent {g : Registry S} (h : g.caches name = .absent) (early : Bool) :
    g.lookup name early = .answered none := by
  simp only [caches, Caches.absent, Caches.mk.injEq] at h
  simp [lookup, object?, h]

/-! ### Where an installed early factory is -/

/-- An early factory of the name has been installed: it still is, or it is running, or it has handed
out an object. Of the early factories of the name, those in `old` have been running longer. -/
inductive Config.Stage (r : S.Index) (name : Name) (e : S.Factory) (old : List S.Factory)
    (c : Config S α) : Option S.Object → Prop
  | installed (hcaches : (c.world.registry r).caches name = ⟨none, some e, none⟩)
      (hrunning : c.running r name = old) : Stage r name e old c none
  | started (hcaches : (c.world.registry r).caches name = .absent)
      (hrunning : c.running r name = e :: old) : Stage r name e old c none
  | handed {o : S.Object} (hobject : ((c.world.registry r).caches name).object = none)
      (hreference : ((c.world.registry r).caches name).reference = some o)
      (hrunning : c.running r name = old) : Stage r name e old c (some o)

namespace Config.Stage

variable {c : Config S α} {e : S.Factory} {old : List S.Factory} {made : Option S.Object}

lemma length_le (h : c.Stage r name e old made) : old.length ≤ (c.running r name).length := by
  cases h with
  | installed hcaches hrunning => rw [hrunning]
  | started hcaches hrunning => rw [hrunning]; exact Nat.le_succ _
  | handed hobject hreference hrunning => rw [hrunning]

/-- If another early factory runs than the older ones, it is the installed one. -/
lemma of_lt (h : c.Stage r name e old made) (hlonger : old.length < (c.running r name).length) :
    made = none ∧ (c.world.registry r).caches name = .absent ∧ c.running r name = e :: old := by
  cases h with
  | installed hcaches hrunning => exact absurd hlonger (by simp [hrunning])
  | started hcaches hrunning => exact ⟨rfl, hcaches, hrunning⟩
  | handed hobject hreference hrunning => exact absurd hlonger (by simp [hrunning])

variable (caller) in
/-- If another early factory ends than the older ones, it is the installed one. -/
lemma eq_of_expose (h : c.Stage r name e old made)
    (hlonger : old.length < (c.running r name).length) {factory : S.Factory}
    {result : Except Error S.Object} (hdoes : c.Does r (.expose name factory result)) :
    factory = e ∧
      ((step caller c).world.registry r).caches name = Caches.absent.expose e result := by
  obtain ⟨-, habsent, hrunning⟩ := h.of_lt hlonger
  obtain ⟨rfl, -⟩ := List.cons.inj ((hdoes.running_expose caller).symm.trans hrunning)
  refine ⟨rfl, ?_⟩
  show ((step caller c).moment r).registry.caches name = _
  rw [hdoes.moment_expose, ← habsent]
  exact Registry.caches_finishExposure_self (c.world.registry r) name factory result

/-- It stays where it is while the caches of the name and its early factories that run do. -/
lemma kept {d : Config S α} (h : c.Stage r name e old made)
    (hcaches : (d.world.registry r).caches name = (c.world.registry r).caches name)
    (hrunning : d.running r name = c.running r name) : d.Stage r name e old made := by
  cases h with
  | installed hinstalled hold => exact .installed (hcaches.trans hinstalled) (hrunning.trans hold)
  | started habsent hold => exact .started (hcaches.trans habsent) (hrunning.trans hold)
  | handed hobject hreference hold =>
      exact .handed (hcaches ▸ hobject) (hcaches ▸ hreference) (hrunning.trans hold)

/-- An early factory that is taken out of the caches is the installed one. -/
lemma taken {d : Config S α} {factory : S.Factory} (h : c.Stage r name e old made)
    (hbefore : (c.world.registry r).caches name = ⟨none, some factory, none⟩)
    (hafter : (d.world.registry r).caches name = .absent)
    (hrunning : d.running r name = factory :: c.running r name) : d.Stage r name e old made := by
  cases h with
  | installed hinstalled hold =>
      obtain rfl := Option.some.inj (congrArg Caches.factory (hbefore.symm.trans hinstalled))
      exact .started hafter (by rw [hrunning, hold])
  | started habsent hold =>
      rw [hbefore] at habsent
      cases habsent
  | handed hobject hreference hold =>
      rw [hbefore] at hreference
      cases hreference

/-- The failure of an early factory puts the installed one back, if it is that one. That of an older
one does nothing to it. -/
lemma failed {d : Config S α} {factory : S.Factory} {error : Error}
    (h : c.Stage r name e old made)
    (hcaches : (d.world.registry r).caches name =
      ((c.world.registry r).caches name).expose factory (.error error))
    (hrunning : c.running r name = factory :: d.running r name) :
    ∃ old', old'.length ≤ old.length ∧ d.Stage r name e old' made := by
  refine ⟨d.running r name, ?_⟩
  cases h with
  | installed hinstalled hold =>
      rw [hinstalled] at hcaches
      exact ⟨by rw [← hold, hrunning]; exact Nat.le_succ _, .installed hcaches rfl⟩
  | started habsent hold =>
      obtain ⟨rfl, hrest⟩ := List.cons.inj (hrunning.symm.trans hold)
      rw [habsent] at hcaches
      exact ⟨hrest ▸ le_rfl, .installed hcaches rfl⟩
  | handed hobject hreference hold =>
      exact ⟨by rw [← hold, hrunning]; exact Nat.le_succ _,
        .handed (by rw [hcaches]; exact hobject) (by rw [hcaches]; exact hreference) rfl⟩

/-- The object of an early factory that is none of the older ones is that of the installed one. -/
lemma exposed {d : Config S α} {factory : S.Factory} {o : S.Object}
    (h : c.Stage r name e old made) (hlonger : old.length < (c.running r name).length)
    (hcaches : (d.world.registry r).caches name =
      ((c.world.registry r).caches name).expose factory (.ok o))
    (hrunning : c.running r name = factory :: d.running r name) :
    made = none ∧ factory = e ∧ d.Stage r name e old (some o) := by
  obtain ⟨hmade, habsent, hold⟩ := h.of_lt hlonger
  obtain ⟨rfl, hrest⟩ := List.cons.inj (hrunning.symm.trans hold)
  rw [habsent] at hcaches
  exact ⟨hmade, rfl, .handed (congrArg Caches.object hcaches) (congrArg Caches.reference hcaches)
    hrest⟩

variable (caller) in
/-- **What a step does to an installed early factory**, if nothing else puts the name into a cache
or drops it and no older early factory hands out an object: it hands out its object, or nothing is
handed out. -/
theorem next (h : c.Stage r name e old made) (hputs : ¬ c.Puts r name) (hdrops : ¬ c.Drops r name)
    (hown : ∀ factory o, c.Does r (.expose name factory (.ok o)) →
      old.length < (c.running r name).length) :
    ((∀ factory o, ¬ c.Does r (.expose name factory (.ok o))) ∧
      ∃ old', old'.length ≤ old.length ∧ (step caller c).Stage r name e old' made) ∨
    ∃ o, made = none ∧ c.Does r (.expose name e (.ok o)) ∧
      (step caller c).Stage r name e old (some o) := by
  cases step_handles caller r name c with
  | changed hchanged => exact absurd hchanged (not_or.mpr ⟨hputs, hdrops⟩)
  | kept hcaches hrunning =>
      exact Or.inl ⟨fun factory o => not_expose_of_length_le (by rw [hrunning]), old, le_rfl,
        h.kept hcaches hrunning⟩
  | taken hbefore hafter hrunning =>
      have hmore : (c.running r name).length ≤ ((step caller c).running r name).length := by
        rw [hrunning]
        exact Nat.le_succ _
      exact Or.inl ⟨fun factory o => not_expose_of_length_le hmore, old, le_rfl,
        h.taken hbefore hafter hrunning⟩
  | @ended factory result hdoes hcaches hrunning =>
      cases result with
      | ok o =>
          obtain ⟨hmade, rfl, hstage⟩ := h.exposed (hown factory o hdoes) hcaches hrunning
          exact Or.inr ⟨o, hmade, hdoes, hstage⟩
      | error err =>
          have hfailed : ∀ f o, ¬ c.Does r (.expose name f (.ok o)) := fun f o hok =>
            absurd (hdoes.expose_inj hok).2 (by simp)
          exact Or.inl ⟨hfailed, h.failed hcaches hrunning⟩

end Config.Stage

/-! ### From its installation on -/

section Run

variable {c : Config S α} {e : S.Factory} {i j k l : ℕ}

variable (caller r name c) in
/-- The innermost early factory of the name that runs before step `k` was started after step `i`:
fewer of them ran at some moment in between. -/
def StartedSince (i k : ℕ) : Prop :=
  ∃ l, i < l ∧ l ≤ k ∧
    ((run caller l c).running r name).length < ((run caller k c).running r name).length

/-- An early factory that ends was started since a moment at which none was running. -/
lemma startedSince_of_running_eq_nil (hnone : (run caller (i + 1) c).running r name = [])
    (hik : i < k) {factory : S.Factory} {result : Except Error S.Object}
    (hdoes : (run caller k c).Does r (.expose name factory result)) :
    StartedSince caller r name c i k := by
  refine ⟨i + 1, Nat.lt_succ_self i, hik, ?_⟩
  rw [hnone, hdoes.running_expose caller]
  exact Nat.succ_pos _

variable (caller r name c) in
/-- What early factories of the name have handed out between the steps `i` and `k`: nothing, or once
an object, which was that of `e`. -/
def HandedOut (e : S.Factory) (i k : ℕ) : Option S.Object → Prop
  | none => ∀ l, i < l → l < k → ∀ factory o,
      ¬ (run caller l c).Does r (.expose name factory (.ok o))
  | some o => ∃ l, i < l ∧ l < k ∧ (run caller l c).Does r (.expose name e (.ok o)) ∧
      ∀ m, i < m → m < k → ∀ factory o',
        (run caller m c).Does r (.expose name factory (.ok o')) → m = l

variable (caller r name c) in
/-- Before step `k`, where the early factory is that was installed by step `i`, and what has been
handed out since. Those that have been running longer have been running all along. -/
structure Follows (e : S.Factory) (i k : ℕ) (old : List S.Factory) (made : Option S.Object) :
    Prop where
  stage : (run caller k c).Stage r name e old made
  older : ∀ l, i < l → l ≤ k → old.length ≤ ((run caller l c).running r name).length
  handed : HandedOut caller r name c e i k made

namespace Follows

variable {old : List S.Factory} {made : Option S.Object}

lemma start (hinstalls : (run caller i c).Does r (.update (.provideEarly name e)))
    (hunbound : ((run caller i c).world.registry r).object? name = none) :
    Follows caller r name c e i (i + 1) ((run caller (i + 1) c).running r name) none where
  stage := by
    refine .installed ?_ rfl
    show ((run caller (i + 1) c).moment r).registry.caches name = _
    rw [run_succ', hinstalls.moment_update]
    exact Registry.caches_provideEarly_of_unbound hunbound e
  older l hil hl := by
    obtain rfl : l = i + 1 := by omega
    exact le_rfl
  handed l hil hl := by omega

lemma lt_of_startedSince (h : Follows caller r name c e i k old made)
    (hstarted : StartedSince caller r name c i k) :
    old.length < ((run caller k c).running r name).length := by
  obtain ⟨l, hil, hlk, hlt⟩ := hstarted
  exact (h.older l hil hlk).trans_lt hlt

/-- The next step of the run. -/
lemma next (h : Follows caller r name c e i k old made) (hik : i < k)
    (hputs : ¬ (run caller k c).Puts r name) (hdrops : ¬ (run caller k c).Drops r name)
    (hown : ∀ factory o, (run caller k c).Does r (.expose name factory (.ok o)) →
      StartedSince caller r name c i k) :
    ∃ old' made', Follows caller r name c e i (k + 1) old' made' := by
  have holder : ∀ {old' : List S.Factory} {made' : Option S.Object},
      old'.length ≤ old.length → (run caller (k + 1) c).Stage r name e old' made' →
      ∀ l, i < l → l ≤ k + 1 → old'.length ≤ ((run caller l c).running r name).length := by
    intro old' made' hle hstage l hil hl
    rcases Nat.lt_succ_iff_lt_or_eq.mp (Nat.lt_succ_of_le hl) with hlt | rfl
    · exact hle.trans (h.older l hil (Nat.lt_succ_iff.mp hlt))
    · exact hstage.length_le
  rcases h.stage.next caller hputs hdrops
    (fun factory o hdoes => h.lt_of_startedSince (hown factory o hdoes)) with
      ⟨hnone, old', hle, hstage⟩ | ⟨o, rfl, hdoes, hstage⟩
  · rw [← run_succ'] at hstage
    refine ⟨old', made, hstage, holder hle hstage, ?_⟩
    have hhanded := h.handed
    cases made with
    | none =>
        intro l hil hl factory o
        rcases Nat.lt_succ_iff_lt_or_eq.mp hl with hlt | rfl
        · exact hhanded l hil hlt factory o
        · exact hnone factory o
    | some o =>
        obtain ⟨l, hil, hlk, hdoes, honce⟩ := hhanded
        refine ⟨l, hil, hlk.trans (Nat.lt_succ_self k), hdoes, fun m him hm factory o' hother => ?_⟩
        rcases Nat.lt_succ_iff_lt_or_eq.mp hm with hlt | rfl
        · exact honce m him hlt factory o' hother
        · exact absurd hother (hnone factory o')
  · rw [← run_succ'] at hstage
    refine ⟨old, some o, hstage, holder le_rfl hstage, k, hik, Nat.lt_succ_self k, hdoes, ?_⟩
    intro m him hm factory o' hother
    by_contra hne
    exact h.handed m him (by omega) factory o' hother

/-- It stays in one of the three places as long as nothing else puts the name into a cache or drops
it and no older early factory hands out an object. -/
lemma exists_of_kept (hinstalls : (run caller i c).Does r (.update (.provideEarly name e)))
    (hunbound : ((run caller i c).world.registry r).object? name = none)
    (hkept : ∀ k, i < k → k < j →
      ¬ (run caller k c).Puts r name ∧ ¬ (run caller k c).Drops r name)
    (hown : ∀ k, i < k → k < j → ∀ factory o,
      (run caller k c).Does r (.expose name factory (.ok o)) → StartedSince caller r name c i k)
    (hik : i < k) (hkj : k ≤ j) : ∃ old made, Follows caller r name c e i k old made := by
  induction k, hik using Nat.le_induction with
  | base => exact ⟨_, _, start hinstalls hunbound⟩
  | succ k hik ih =>
      obtain ⟨old, made, hfollows⟩ := ih (Nat.le_of_succ_le hkj)
      obtain ⟨hputs, hdrops⟩ := hkept k hik hkj
      exact hfollows.next hik hputs hdrops (hown k hik hkj)

/-- Of two early factories that have handed out an object, one is the other. -/
lemma eq_of_expose_ok (h : Follows caller r name c e i j old made) (hik : i < k) (hkj : k < j)
    (hil : i < l) (hlj : l < j) {f f' : S.Factory} {o o' : S.Object}
    (hk : (run caller k c).Does r (.expose name f (.ok o)))
    (hl : (run caller l c).Does r (.expose name f' (.ok o'))) : k = l := by
  have hhanded := h.handed
  cases made with
  | none => exact absurd hk (hhanded k hik hkj f o)
  | some made =>
      obtain ⟨m, -, -, -, honce⟩ := hhanded
      exact (honce k hik hkj f o hk).trans (honce l hil hlj f' o' hl).symm

/-- A lookup that yields an object yields the one that the installed early factory has handed
out. -/
lemma exists_expose_ok (h : Follows caller r name c e i k old made) (hik : i < k)
    (hown : ∀ factory o, (run caller k c).Does r (.expose name factory (.ok o)) →
      StartedSince caller r name c i k) {o : S.Object}
    (hfinds : (run caller k c).Finds r name (.ok (some o))) :
    ∃ l, i < l ∧ l ≤ k ∧ (run caller l c).Does r (.expose name e (.ok o)) := by
  rcases hfinds.cases_object with hobject | hreference | ⟨factory, hdoes⟩
  · cases h.stage with
    | installed hcaches => rw [hcaches] at hobject; cases hobject
    | started hcaches => rw [hcaches] at hobject; cases hobject
    | handed hnone => rw [hnone] at hobject; cases hobject
  · obtain ⟨hstage, -, hhanded⟩ := h
    cases hstage with
    | installed hcaches => rw [hcaches] at hreference; cases hreference
    | started hcaches => rw [hcaches] at hreference; cases hreference
    | handed hnone hmade =>
        obtain rfl := Option.some.inj (hmade.symm.trans hreference)
        obtain ⟨l, hil, hlk, hdoes, -⟩ := hhanded
        exact ⟨l, hil, hlk.le, hdoes⟩
  · have hlonger := h.lt_of_startedSince (hown factory o hdoes)
    obtain ⟨rfl, -⟩ := h.stage.eq_of_expose caller hlonger hdoes
    exact ⟨k, hik, le_rfl, hdoes⟩

end Follows

/-- **An early object is made once and then stays the one.** From the installation of an early
factory for a name that is not bound on, let nothing else put the name into a cache or drop it, and
let no early factory of the name that was running already hand out an object. Then early factories
of the name hand out an object once at most; whichever lookup yields an object yields that of the
installed one; while that one runs, a lookup yields nothing and starts nothing; and its failure is
the answer of the lookup that has started it, which leaves it installed for the next one. -/
theorem early_object_once (hinstalls : (run caller i c).Does r (.update (.provideEarly name e)))
    (hunbound : ((run caller i c).world.registry r).object? name = none)
    (hkept : ∀ k, i < k → k < j →
      ¬ (run caller k c).Puts r name ∧ ¬ (run caller k c).Drops r name)
    (hown : ∀ k, i < k → k < j → ∀ factory o,
      (run caller k c).Does r (.expose name factory (.ok o)) → StartedSince caller r name c i k) :
    (∀ k l, i < k → k < j → i < l → l < j → ∀ f f' o o',
      (run caller k c).Does r (.expose name f (.ok o)) →
      (run caller l c).Does r (.expose name f' (.ok o')) → k = l) ∧
    (∀ k, i < k → k < j → ∀ o, (run caller k c).Finds r name (.ok (some o)) →
      ∃ l, i < l ∧ l ≤ k ∧ (run caller l c).Does r (.expose name e (.ok o))) ∧
    (∀ k l, i < k → k < j → i < l → l < j → ∀ o o',
      (run caller k c).Finds r name (.ok (some o)) →
      (run caller l c).Finds r name (.ok (some o')) → o = o') ∧
    (∀ k, i < k → k ≤ j → StartedSince caller r name c i k →
      (∃ old, (run caller k c).running r name = e :: old) ∧
      ∀ early, ((run caller k c).world.registry r).lookup name early = .answered none) ∧
    ∀ k, i < k → k < j → StartedSince caller r name c i k → ∀ f err,
      (run caller k c).Does r (.expose name f (.error err)) →
      f = e ∧ (run caller k c).Finds r name (.error err) ∧
      ((run caller (k + 1) c).world.registry r).caches name = ⟨none, some e, none⟩ ∧
      (name ∈ ((run caller (k + 1) c).world.registry r).inCreation →
        ∃ g, ((run caller (k + 1) c).world.registry r).lookup name true = .expose e g) := by
  have hfollows : ∀ k, i < k → k ≤ j → ∃ old made, Follows caller r name c e i k old made :=
    fun k => Follows.exists_of_kept hinstalls hunbound hkept hown
  have honce : ∀ k l, i < k → k < j → i < l → l < j → ∀ f f' o o',
      (run caller k c).Does r (.expose name f (.ok o)) →
      (run caller l c).Does r (.expose name f' (.ok o')) → k = l := by
    intro k l hik hkj hil hlj f f' o o' hk hl
    obtain ⟨old, made, hj⟩ := hfollows j (hik.trans hkj) le_rfl
    exact hj.eq_of_expose_ok hik hkj hil hlj hk hl
  have hmade : ∀ k, i < k → k < j → ∀ o, (run caller k c).Finds r name (.ok (some o)) →
      ∃ l, i < l ∧ l ≤ k ∧ (run caller l c).Does r (.expose name e (.ok o)) := by
    intro k hik hkj o hfinds
    obtain ⟨old, made, hk⟩ := hfollows k hik hkj.le
    exact hk.exists_expose_ok hik (hown k hik hkj) hfinds
  refine ⟨honce, hmade, fun k l hik hkj hil hlj o o' hk hl => ?_,
    fun k hik hkj hstarted => ?_, fun k hik hkj hstarted f err hdoes => ?_⟩
  · obtain ⟨m, him, hmk, hm⟩ := hmade k hik hkj o hk
    obtain ⟨m', him', hml, hm'⟩ := hmade l hil hlj o' hl
    obtain rfl := honce m m' him (hmk.trans_lt hkj) him' (hml.trans_lt hlj) e e o o' hm hm'
    exact Except.ok.inj (hm.expose_inj hm').2
  · obtain ⟨old, made, hk⟩ := hfollows k hik hkj
    obtain ⟨-, habsent, hrunning⟩ := hk.stage.of_lt (hk.lt_of_startedSince hstarted)
    exact ⟨⟨old, hrunning⟩, Registry.lookup_of_absent habsent⟩
  · obtain ⟨old, made, hk⟩ := hfollows k hik hkj.le
    obtain ⟨rfl, hcaches⟩ := hk.stage.eq_of_expose caller (hk.lt_of_startedSince hstarted) hdoes
    rw [← run_succ'] at hcaches
    refine ⟨rfl, hdoes.finds, hcaches, fun hmark => ⟨_, Registry.lookup_of_factory ?_ hmark ?_ ?_⟩⟩
    · exact congrArg Caches.object hcaches
    · exact congrArg Caches.reference hcaches
    · exact congrArg Caches.factory hcaches

end Run

/-! ### Steps that put nothing into a cache and drop nothing -/

/-- The next step of the script is neither its end nor an operation other than a lookup and a
creation. -/
def Script.Asks : Script S α → Prop
  | done _ | call _ _ _ | tearDown _ _ _ | tearDownAll _ _ => False
  | _ => True

namespace Config

lemma kept_of_asks {role : Role} {s : Script S (role.Result S α)} {stack : Stack S α role}
    {w : World S} (h : s.Asks) :
    ¬ (⟨role, .script s, stack, w⟩ : Config S α).Puts r name ∧
      ¬ (⟨role, .script s, stack, w⟩ : Config S α).Drops r name := by
  constructor
  all_goals
    rintro ⟨deed, hdoes, hdeed⟩
    cases hdoes with
    | update u => exact h
    | leave other opened result => exact h
    | _ => exact hdeed

variable {role : Role} {r' : S.Index} {other : Name} {result : Except Error S.Object} {w : World S}

lemma kept_of_exposing {factory : S.Factory} {below : Stack S α role}
    {next : Except Error (Option S.Object) → Script S (role.Result S α)} :
    ¬ (⟨.factory, .script (.done result), .exposing r' other factory next below, w⟩ :
        Config S α).Puts r name ∧
      ¬ (⟨.factory, .script (.done result), .exposing r' other factory next below, w⟩ :
        Config S α).Drops r name := by
  constructor
  all_goals
    rintro ⟨deed, hdoes, hdeed⟩
    cases hdoes <;> exact hdeed

lemma kept_of_creating (h : other ≠ name) {opened : Bool} {below : Stack S α role}
    {next : Except Error S.Object → Script S (role.Result S α)} :
    ¬ (⟨.factory, .script (.done result), .creating r' other opened next below, w⟩ :
        Config S α).Puts r name ∧
      ¬ (⟨.factory, .script (.done result), .creating r' other opened next below, w⟩ :
        Config S α).Drops r name := by
  constructor
  · rintro ⟨deed, hdoes, hputs⟩
    cases hdoes with
    | leave => cases result with
      | ok o => exact h hputs
      | error e => exact hputs
    | idle => exact hputs
  · rintro ⟨deed, hdoes, hdrops⟩
    cases hdoes <;> exact hdrops

end Config

/-! ### An early factory that fails once, and one that installs another one -/

/-- The factories of a pool: the one that installs an early factory, the early factories, and the
factory of what audits the pool. -/
inductive PoolFactory where
  | creating (installed : PoolFactory)
  | early
  | older
  | auditing

/-- One registry, the factories of the pool, and whether the early factory has failed. -/
def poolSetup : Setup := ⟨.basic, 1, PoolFactory, Empty, Empty, Bool, Empty⟩

/-- The number of the registry. -/
def poolIndex : poolSetup.Index := Fin.mk 0 Nat.one_pos

/-- A factory that ends with what a lookup has found ends so. -/
def endFound :
    Except Error (Option poolSetup.Object) → Script poolSetup (Except Error poolSetup.Object)
  | .ok (some object) => .done (.ok object)
  | .ok none => .done (.error (.illegalState "no pool"))
  | .error e => .done (.error e)

/-- The factory looks the pool up three times. The early factory fails once. The older early factory
installs that one, and has something else created that looks the pool up. -/
def poolCaller : Caller poolSetup where
  factory
    | .creating installed => .call poolIndex (.provideEarly "pool" installed) fun _ =>
      .find poolIndex "pool" true fun _ =>
        .find poolIndex "pool" true fun _ => .find poolIndex "pool" false endFound
    | .early => .read fun
      | true => .make (.text "second") fun o => .done (.ok o)
      | false => .store (fun _ => true) (.done (.error (.caller "not yet" [])))
    | .older => .call poolIndex (.provideEarly "pool" .early) fun _ =>
      .demand poolIndex "audit" .auditing fun _ => .make (.text "first") fun o => .done (.ok o)
    | .auditing => .find poolIndex "pool" true endFound
  disposer d := d.elim
  observer o _ := o.elim

/-- The run in which the pool is created. -/
def poolRun (installed : PoolFactory) (failed : Bool) (k : ℕ) :
    Config poolSetup (Except Error poolSetup.Object) :=
  run poolCaller k (Config.start (Script.obtain poolIndex "pool" (.creating installed))
    ⟨#v[{}], failed, 0, []⟩)

/-- The early factory fails at the first lookup, and hands out its object at the second. -/
theorem early_object_once_retried :
    (poolRun .early false 1).Does poolIndex (.update (.provideEarly "pool" .early)) ∧
    ((poolRun .early false 1).world.registry poolIndex).object? "pool" = none ∧
    (∀ k, 1 < k → k < 11 → ¬ (poolRun .early false k).Puts poolIndex "pool" ∧
      ¬ (poolRun .early false k).Drops poolIndex "pool") ∧
    (∀ k, 1 < k → k < 11 → ∀ factory o,
      (poolRun .early false k).Does poolIndex (.expose "pool" factory (.ok o)) →
      StartedSince poolCaller poolIndex "pool" (poolRun .early false 0) 1 k) ∧
    (poolRun .early false 5).Finds poolIndex "pool" (.error (.caller "not yet" [])) ∧
    (poolRun .early false 9).Finds poolIndex "pool" (.ok (some ⟨0, .text "second"⟩)) ∧
    ∀ o, (poolRun .early false 10).Finds poolIndex "pool" (.ok (some o)) →
      o = ⟨0, .text "second"⟩ := by
  have hinstalls :
      (poolRun .early false 1).Does poolIndex (.update (.provideEarly "pool" .early)) := .update _
  have hkept : ∀ k, 1 < k → k < 11 → ¬ (poolRun .early false k).Puts poolIndex "pool" ∧
      ¬ (poolRun .early false k).Drops poolIndex "pool" := by
    intro k hlow hhigh
    obtain hasks | rfl | rfl : (k = 2 ∨ k = 3 ∨ k = 4 ∨ k = 6 ∨ k = 7 ∨ k = 8 ∨ k = 10) ∨
      k = 5 ∨ k = 9 := by omega
    · rcases hasks with rfl | rfl | rfl | rfl | rfl | rfl | rfl <;>
        exact Config.kept_of_asks trivial
    · exact Config.kept_of_exposing
    · exact Config.kept_of_exposing
  have hown : ∀ k, 1 < k → k < 11 → ∀ factory o,
      (poolRun .early false k).Does poolIndex (.expose "pool" factory (.ok o)) →
      StartedSince poolCaller poolIndex "pool" (poolRun .early false 0) 1 k :=
    fun k hik _ factory o hdoes => startedSince_of_running_eq_nil rfl hik hdoes
  have hmade : (poolRun .early false 9).Finds poolIndex "pool" (.ok (some ⟨0, .text "second"⟩)) :=
    .ended
  obtain ⟨-, -, hsame, -, hfailed⟩ := early_object_once hinstalls rfl hkept hown
  obtain ⟨-, hanswer, -⟩ := hfailed 5 (by decide) (by decide)
    (startedSince_of_running_eq_nil rfl (by decide) (.expose _ _ _)) .early _ (.expose _ _ _)
  exact ⟨hinstalls, rfl, hkept, hown, hanswer, hmade, fun o hfinds =>
    hsame 10 9 (by decide) (by decide) (by decide) (by decide) o _ hfinds hmade⟩

/-- An early factory that installs another one is still running when that one hands out its object
to a nested creation. Its own object takes the place of that one. -/
theorem early_object_replaced :
    (poolRun .older true 3).Does poolIndex (.update (.provideEarly "pool" .early)) ∧
    ((poolRun .older true 3).world.registry poolIndex).object? "pool" = none ∧
    "pool" ∉ ((poolRun .older true 3).world.registry poolIndex).excluded ∧
    (∀ k, 3 < k → k < 14 → ¬ (poolRun .older true k).Puts poolIndex "pool" ∧
      ¬ (poolRun .older true k).Drops poolIndex "pool") ∧
    (poolRun .older true 8).Does poolIndex (.expose "pool" .early (.ok ⟨0, .text "second"⟩)) ∧
    (poolRun .older true 8).Finds poolIndex "pool" (.ok (some ⟨0, .text "second"⟩)) ∧
    (poolRun .older true 12).Finds poolIndex "pool" (.ok (some ⟨1, .text "first"⟩)) ∧
    (poolRun .older true 13).Finds poolIndex "pool" (.ok (some ⟨1, .text "first"⟩)) := by
  have hkept : ∀ k, 3 < k → k < 14 → ¬ (poolRun .older true k).Puts poolIndex "pool" ∧
      ¬ (poolRun .older true k).Drops poolIndex "pool" := by
    intro k hlow hhigh
    obtain hasks | rfl | rfl | rfl : (k = 4 ∨ k = 5 ∨ k = 6 ∨ k = 7 ∨ k = 10 ∨ k = 12 ∨ k = 13) ∨
      k = 8 ∨ k = 9 ∨ k = 11 := by omega
    · rcases hasks with rfl | rfl | rfl | rfl | rfl | rfl | rfl <;>
        exact Config.kept_of_asks trivial
    · exact Config.kept_of_exposing
    · exact Config.kept_of_creating (by decide)
    · exact Config.kept_of_exposing
  exact ⟨.update _, rfl, List.not_mem_nil, hkept, .expose _ _ _, .ended, .once rfl, .once rfl⟩

end InstanceRegistry
