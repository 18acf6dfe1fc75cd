import InstanceRegistry.Proofs.Registry.Frames

/-!
A run as one registry sees it. However deep the calls of a run are nested, every step of it does one
of a few things to a registry, or nothing.

* `Stack.creations`: the creations of a registry that are under way;
* `Moment`, `Config.moment`: the part of a configuration that concerns one registry;
* `Deed`, `Config.Does`: what a step does to the registry;
* `Moment.Moves`: what the registry is like afterwards;
* `Moment.Moves.agreesOutside`: most deeds concern the caches and the marks only;
* `Config.Moves`, `step_moves`: every step of a run does one of these deeds;
* `Config.Does.moment_update`, `Config.Does.moment_task`, `Config.Does.moment_leave`,
  `Config.Does.moment_expose`: what comes of the deeds that always succeed;
* `Switched`: a property of a registry that some deeds bring about and some undo.
-/

namespace InstanceRegistry

variable {S : Setup} {α β : Type} {caller : Caller S}

/-! ### Moments -/

/-- The names that a registry is creating, by the calls that wait for their factories, the innermost
first. -/
def Stack.creations (r : S.Index) : {role : Role} → Stack S α role → List Name
  | _, .bottom => []
  | _, .creating s name _ _ below =>
    if s = r then name :: below.creations r else below.creations r
  | _, .exposing _ _ _ _ below => below.creations r
  | _, .disposing _ _ _ _ below => below.creations r
  | _, .observing _ below => below.creations r

/-- The event of a registry that a line of the journal tells of. -/
def Entry.event? (r : S.Index) : Entry S → Option Event
  | .event s content => if s = r then some content else none
  | _ => none

/-- A registry in the middle of a run. -/
structure Moment (S : Setup) where
  /-- The names that are being created, the innermost first. -/
  creations : List Name
  registry : Registry S
  /-- The events that have been reported. -/
  events : List Event

/-- What concerns the registry in a configuration. -/
def Config.moment (r : S.Index) (c : Config S α) : Moment S where
  creations := c.stack.creations r
  registry := c.world.registry r
  events := c.world.seen (Entry.event? r)

/-! ### Deeds -/

/-- What a step does to a registry. -/
inductive Deed (S : Setup) where
  /-- Nothing. -/
  | idle
  /-- An operation that runs no code of the caller. -/
  | update (u : Update S)
  /-- An early factory is taken out, to be run. -/
  | take (name : Name)
  /-- An early factory has ended. -/
  | expose (name : Name) (factory : S.Factory) (result : Except Error S.Object)
  /-- A creation starts its factory. -/
  | enter (name : Name)
  /-- The factory of a creation has ended. -/
  | leave (name : Name) (opened : Bool) (result : Except Error S.Object)
  /-- The destruction of all names is announced. -/
  | announce
  /-- A task of a destruction is done. -/
  | task (t : Task S)
  /-- A disposer has failed. -/
  | fail (name : Name) (failure : Error)

/-- The configurations whose next step does a deed. -/
inductive Config.Does (r : S.Index) : Config S α → Deed S → Prop
  | idle (c : Config S α) : Does r c .idle
  | update {role : Role} (u : Update S) {next : u.Answer → Script S (role.Result S α)}
      {stack : Stack S α role} {w : World S} :
      Does r ⟨role, .script (.call r u next), stack, w⟩ (.update u)
  | take {role : Role} (name : Name) {early : Bool}
      {next : Except Error (Option S.Object) → Script S (role.Result S α)} {stack : Stack S α role}
      {w : World S} : Does r ⟨role, .script (.find r name early next), stack, w⟩ (.take name)
  | expose {role : Role} (name : Name) (factory : S.Factory) (result : Except Error S.Object)
      {next : Except Error (Option S.Object) → Script S (role.Result S α)} {below : Stack S α role}
      {w : World S} :
      Does r ⟨.factory, .script (.done result), .exposing r name factory next below, w⟩
        (.expose name factory result)
  | enter {role : Role} (name : Name) {factory : S.Factory}
      {next : Except Error S.Object → Script S (role.Result S α)} {stack : Stack S α role}
      {w : World S} : Does r ⟨role, .script (.demand r name factory next), stack, w⟩ (.enter name)
  | leave {role : Role} (name : Name) (opened : Bool) (result : Except Error S.Object)
      {next : Except Error S.Object → Script S (role.Result S α)} {below : Stack S α role}
      {w : World S} :
      Does r ⟨.factory, .script (.done result), .creating r name opened next below, w⟩
        (.leave name opened result)
  | announce {role : Role} {next : Script S (role.Result S α)} {stack : Stack S α role}
      {w : World S} : Does r ⟨role, .script (.tearDownAll r next), stack, w⟩ .announce
  | task {role : Role} (t : Task S) {tasks : List (Task S)} {next : Script S (role.Result S α)}
      {stack : Stack S α role} {w : World S} :
      Does r ⟨role, .teardown r (t :: tasks) next, stack, w⟩ (.task t)
  | fail {role : Role} (name : Name) (failure : Error) {tasks : List (Task S)}
      {next : Script S (role.Result S α)} {below : Stack S α role} {w : World S} :
      Does r ⟨.disposer, .script (.done (.error failure)), .disposing r name tasks next below, w⟩
        (.fail name failure)

namespace Moment

/-- The moment after a change of the registry is made and its event is reported. -/
def after (m : Moment S) (change : Registry.Change S β) : Moment S where
  creations := m.creations
  registry := change.registry
  events := m.events ++ change.event.toList

/-- A deed leads from one moment of a registry to the next one. -/
inductive Moves : Moment S → Deed S → Moment S → Prop
  | idle (m : Moment S) : Moves m .idle m
  | update (m : Moment S) (u : Update S) : Moves m (.update u) (m.after (m.registry.apply u))
  | take (m : Moment S) {name : Name} {early : Bool} {factory : S.Factory} {g : Registry S}
      (h : m.registry.lookup name early = .expose factory g) :
      Moves m (.take name) { m with registry := g }
  | expose (m : Moment S) (name : Name) (factory : S.Factory) (result : Except Error S.Object) :
      Moves m (.expose name factory result)
        (m.after (m.registry.finishExposure name factory result))
  | enter (m : Moment S) {name : Name} {g : Registry S} {opened : Bool}
      (h : m.registry.demand name = .create g opened) :
      Moves m (.enter name) { m with creations := name :: m.creations, registry := g }
  | leave (m : Moment S) {names : List Name} {name : Name} (opened : Bool)
      (result : Except Error S.Object) (h : m.creations = name :: names) :
      Moves m (.leave name opened result)
        ({ m with creations := names }.after (m.registry.finishCreation name opened result))
  | announce (m : Moment S) : Moves m .announce (m.after m.registry.announceDestroyAll)
  | task (m : Moment S) (t : Task S) : Moves m (.task t) (m.after (m.registry.perform t))
  | fail (m : Moment S) (name : Name) (failure : Error) :
      Moves m (.fail name failure) (m.after (m.registry.reportFailure name failure))

/-- Whatever is neither an operation nor a task of a destruction changes the caches, the marks and
the reported errors at most. -/
lemma Moves.agreesOutside {m m' : Moment S} {deed : Deed S} (h : m.Moves deed m')
    (hupdate : ∀ u, deed ≠ .update u) (htask : ∀ t, deed ≠ .task t) :
    m.registry.AgreesOutside m'.registry := by
  cases h with
  | update u => exact absurd rfl (hupdate u)
  | take hlookup => exact .of_lookup hlookup
  | expose name factory result => exact .finishExposure _ name factory result
  | enter hdemand => exact .of_demand hdemand
  | leave opened result hcreations => exact .finishCreation _ _ opened result
  | task t => exact absurd rfl (htask t)
  | _ => exact .refl _

end Moment

/-! ### Every step does a deed -/

section Step

variable {r s : S.Index} {role : Role} {stack : Stack S α role} {w : World S}

lemma World.seen_event_log (w : World S) (s : S.Index) (notices : List Notice) :
    (w.log s notices).seen (Entry.event? r) = w.seen (Entry.event? r) := by
  have hnone : (notices.map (Entry.notice s)).filterMap (Entry.event? r) = [] := by
    refine List.filterMap_eq_nil_iff.mpr fun e he => ?_
    obtain ⟨notice, -, rfl⟩ := List.mem_map.mp he
    rfl
  rw [World.seen_log, hnone, List.append_nil]

lemma World.seen_event_started (w : World S) (s : S.Index) (name : Name) (work : Work S) :
    (w.write (.started s name work)).seen (Entry.event? r) = w.seen (Entry.event? r) := by
  rw [World.seen_write]
  exact List.append_nil _

/-- A report leaves the registry as it is, and is seen. -/
lemma moment_report (event : Option Event) (next : Activity S (role.Result S α)) :
    (report caller s event next stack w).moment r =
      { creations := stack.creations r
        registry := w.registry r
        events := w.seen (Entry.event? r) ++ if s = r then event.toList else [] } := by
  cases event with
  | none => simp [report, Config.moment]
  | some e =>
      have hseen : (w.write (.event s e)).seen (Entry.event? r) =
          w.seen (Entry.event? r) ++ if s = r then [e] else [] := by
        rw [World.seen_write]
        by_cases hs : s = r <;> simp [Entry.event?, hs]
      cases ho : (w.registry s).observer with
      | none =>
          have hreport : report caller s (some e) next stack w =
              ⟨role, next, stack, w.write (.event s e)⟩ := by simp only [report, ho]
          rw [hreport]
          simp only [Config.moment, hseen, World.registry_write, Option.toList_some]
      | some o =>
          have hreport : report caller s (some e) next stack w =
              ⟨.observer, .script (caller.observer o e), .observing next stack,
                w.write (.event s e)⟩ := by simp only [report, ho]
          rw [hreport]
          simp only [Config.moment, hseen, World.registry_write, Option.toList_some,
            Stack.creations]

/-- A change of the registry is made and reported. -/
lemma moment_commit_self (change : Registry.Change S β) (next : β → Activity S (role.Result S α)) :
    (commit caller r change next stack w).moment r =
      Moment.after ⟨stack.creations r, w.registry r, w.seen (Entry.event? r)⟩ change := by
  rw [commit, moment_report, World.carry, World.seen_event_log, World.seen_setRegistry]
  simp [Moment.after]

/-- A change of another registry does nothing to the registry. -/
lemma moment_commit_of_ne (hs : r ≠ s) (change : Registry.Change S β)
    (next : β → Activity S (role.Result S α)) :
    (commit caller s change next stack w).moment r =
      ⟨stack.creations r, w.registry r, w.seen (Entry.event? r)⟩ := by
  rw [commit, moment_report, World.carry, World.seen_event_log, World.seen_setRegistry,
    World.registry_log, World.registry_setRegistry_of_ne _ hs]
  simp [hs.symm]

variable (r) in
/-- The step from `c` to `d` does a deed to the registry. -/
def Config.Moves (c d : Config S α) : Prop :=
  ∃ deed, c.Does r deed ∧ (c.moment r).Moves deed (d.moment r)

lemma Config.moves_of_eq {c d : Config S α} (h : d.moment r = c.moment r) : c.Moves r d :=
  ⟨.idle, .idle c, h ▸ .idle _⟩

/-- A change of a registry is a deed to that registry, and nothing to any other. -/
lemma Config.moves_commit {c : Config S α} (deed : Deed S) (change : Registry.Change S β)
    (next : β → Activity S (role.Result S α)) (hdoes : s = r → c.Does r deed)
    (hidle : s ≠ r → c.moment r = ⟨stack.creations r, w.registry r, w.seen (Entry.event? r)⟩)
    (hmoves : s = r → (c.moment r).Moves deed
      (Moment.after ⟨stack.creations r, w.registry r, w.seen (Entry.event? r)⟩ change)) :
    c.Moves r (commit caller s change next stack w) := by
  by_cases hs : s = r
  · subst hs
    refine ⟨deed, hdoes rfl, ?_⟩
    rw [moment_commit_self]
    exact hmoves rfl
  · refine Config.moves_of_eq ?_
    rw [moment_commit_of_ne (Ne.symm hs), ← hidle hs]

/-- The end of a call's code wakes the call that waits for it. -/
lemma step_done_moves (stack : Stack S α role) (result : role.Result S α) (w : World S) :
    Config.Moves r ⟨role, .script (.done result), stack, w⟩
      (step caller ⟨role, .script (.done result), stack, w⟩) := by
  cases stack with
  | bottom => exact Config.moves_of_eq rfl
  | creating s name opened next below =>
      refine Config.moves_commit (.leave name opened result) _ _ (fun hs => ?_) (fun hs => ?_)
        fun hs => ?_
      · subst hs
        exact .leave name opened result
      · simp [Config.moment, Stack.creations, hs]
      · subst hs
        exact .leave _ opened result (if_pos rfl)
  | exposing s name factory next below =>
      refine Config.moves_commit (.expose name factory result) _ _ (fun hs => ?_) (fun _ => rfl)
        fun hs => ?_
      · subst hs
        exact .expose name factory result
      · subst hs
        exact .expose _ name factory result
  | disposing s name tasks next below =>
      cases result with
      | ok _ => exact Config.moves_of_eq rfl
      | error failure =>
          refine Config.moves_commit (.fail name failure) _ _ (fun hs => ?_) (fun _ => rfl)
            fun hs => ?_
          · subst hs
            exact .fail name failure
          · subst hs
            exact .fail _ name failure
  | observing next below => exact Config.moves_of_eq rfl

lemma step_find_moves (s : S.Index) (name : Name) (early : Bool)
    (next : Except Error (Option S.Object) → Script S (role.Result S α)) (stack : Stack S α role)
    (w : World S) : Config.Moves r ⟨role, .script (.find s name early next), stack, w⟩
      (step caller ⟨role, .script (.find s name early next), stack, w⟩) := by
  cases h : (w.registry s).lookup name early with
  | answered object =>
      refine Config.moves_of_eq ?_
      simp only [step, stepScript, h]
      rfl
  | expose factory g =>
      simp only [step, stepScript, h]
      by_cases hs : s = r
      · subst hs
        refine ⟨.take name, .take name, ?_⟩
        have hm : Config.moment s (⟨.factory, .script (caller.factory factory),
            .exposing s name factory next stack,
            (w.setRegistry s g).write (.started s name (.exposure factory))⟩ : Config S α) =
            ⟨stack.creations s, g, w.seen (Entry.event? s)⟩ := by
          simp [Config.moment, Stack.creations, World.seen_event_started]
        rw [hm]
        exact .take _ h
      · refine Config.moves_of_eq ?_
        simp [Config.moment, Stack.creations, World.seen_event_started,
          World.registry_setRegistry_of_ne _ (Ne.symm hs)]

lemma step_demand_moves (s : S.Index) (name : Name) (factory : S.Factory)
    (next : Except Error S.Object → Script S (role.Result S α)) (stack : Stack S α role)
    (w : World S) : Config.Moves r ⟨role, .script (.demand s name factory next), stack, w⟩
      (step caller ⟨role, .script (.demand s name factory next), stack, w⟩) := by
  cases h : (w.registry s).demand name with
  | answered answer notices =>
      refine Config.moves_of_eq ?_
      simp only [step, stepScript, h]
      simp [Config.moment, World.seen_event_log]
  | create g opened =>
      simp only [step, stepScript, h]
      by_cases hs : s = r
      · subst hs
        refine ⟨.enter name, .enter name, ?_⟩
        have hm : Config.moment s (⟨.factory, .script (caller.factory factory),
            .creating s name opened next stack, ((w.setRegistry s g).log s [.creating name]).write
              (.started s name (.creation factory))⟩ : Config S α) =
            ⟨name :: stack.creations s, g, w.seen (Entry.event? s)⟩ := by
          simp [Config.moment, Stack.creations, World.seen_event_started, World.seen_event_log]
        rw [hm]
        exact .enter _ h
      · refine Config.moves_of_eq ?_
        simp [Config.moment, Stack.creations, World.seen_event_started, World.seen_event_log, hs,
          World.registry_setRegistry_of_ne _ (Ne.symm hs)]

/-- The tasks of a destruction are deeds, and the disposers that it runs are none. -/
lemma step_teardown_moves (s : S.Index) (tasks : List (Task S)) (next : Script S (role.Result S α))
    (stack : Stack S α role) (w : World S) :
    Config.Moves r ⟨role, .teardown s tasks next, stack, w⟩
      (step caller ⟨role, .teardown s tasks next, stack, w⟩) := by
  cases tasks with
  | nil => exact Config.moves_of_eq rfl
  | cons t tasks =>
      have hdoes : s = r → Config.Does r ⟨role, .teardown s (t :: tasks) next, stack, w⟩
          (.task t) := fun hs => by subst hs; exact .task t
      have hmoves : s = r →
          (Config.moment r ⟨role, .teardown s (t :: tasks) next, stack, w⟩).Moves (.task t)
            (Moment.after ⟨stack.creations r, w.registry r, w.seen (Entry.event? r)⟩
              ((w.registry s).perform t)) := fun hs => by subst hs; exact .task _ t
      cases t with
      | dispose name disposer =>
          refine Config.moves_of_eq ?_
          simp [step, stepTeardown, Config.moment, Stack.creations, World.seen_event_started]
      | destroy name => exact Config.moves_commit _ _ _ hdoes (fun _ => rfl) hmoves
      | destroyContents name => exact Config.moves_commit _ _ _ hdoes (fun _ => rfl) hmoves
      | forget name => exact Config.moves_commit _ _ _ hdoes (fun _ => rfl) hmoves
      | destroyAll => exact Config.moves_commit _ _ _ hdoes (fun _ => rfl) hmoves
      | reset => exact Config.moves_commit _ _ _ hdoes (fun _ => rfl) hmoves

variable (caller r) in
/-- **Every step does a deed**: from one configuration of a run to the next one, a registry stays as
it is or changes in one of the ways that its operations have. -/
theorem step_moves (c : Config S α) : c.Moves r (step caller c) := by
  obtain ⟨role, activity, stack, w⟩ := c
  cases activity with
  | teardown s tasks next => exact step_teardown_moves s tasks next stack w
  | script script =>
      cases script with
      | done result => exact step_done_moves stack result w
      | read next => exact Config.moves_of_eq rfl
      | store change next => exact Config.moves_of_eq rfl
      | note content next =>
          refine Config.moves_of_eq ?_
          have hseen : (w.write (.note content)).seen (Entry.event? r) = w.seen (Entry.event? r) :=
            (World.seen_write w _).trans (List.append_nil _)
          simp [step, stepScript, Config.moment, hseen]
      | make value next => exact Config.moves_of_eq rfl
      | view s next => exact Config.moves_of_eq rfl
      | call s u next =>
          refine Config.moves_commit (.update u) _ _ (fun hs => ?_) (fun _ => rfl) (fun hs => ?_)
          · subst hs
            exact .update u
          · subst hs
            exact .update _ u
      | find s name early next => exact step_find_moves s name early next stack w
      | demand s name factory next => exact step_demand_moves s name factory next stack w
      | tearDown s name next => exact Config.moves_of_eq rfl
      | tearDownAll s next =>
          refine Config.moves_commit Deed.announce _ _ (fun hs => ?_) (fun _ => rfl) (fun hs => ?_)
          · subst hs
            exact .announce
          · subst hs
            exact .announce _

/-! ### What comes of a deed -/

namespace Config.Does

variable (caller) {c : Config S α} {name : Name}

lemma moment_update {u : Update S} (h : c.Does r (.update u)) :
    (step caller c).moment r = (c.moment r).after ((c.world.registry r).apply u) := by
  cases h
  exact moment_commit_self _ _

lemma moment_task {t : Task S} (h : c.Does r (.task t)) :
    (step caller c).moment r = (c.moment r).after ((c.world.registry r).perform t) := by
  cases h
  cases t with
  | dispose name disposer =>
      simp [step, stepTeardown, Config.moment, Stack.creations, World.seen_event_started,
        Moment.after, Registry.perform]
  | _ => exact moment_commit_self _ _

lemma moment_leave {opened : Bool} {result : Except Error S.Object}
    (h : c.Does r (.leave name opened result)) :
    ∃ names, (c.moment r).creations = name :: names ∧
      (step caller c).moment r = ({ c.moment r with creations := names } : Moment S).after
        ((c.world.registry r).finishCreation name opened result) := by
  cases h
  exact ⟨_, if_pos rfl, moment_commit_self _ _⟩

lemma moment_expose {factory : S.Factory} {result : Except Error S.Object}
    (h : c.Does r (.expose name factory result)) :
    (step caller c).moment r = (c.moment r).after
      ((c.world.registry r).finishExposure name factory result) := by
  cases h
  exact moment_commit_self _ _

end Config.Does

/-! ### Properties that deeds bring about and undo -/

/-- The deeds that change a registry whenever a step does them. A lookup or a request may be
answered at once, and an announcement or a failure changes nothing. -/
def Deed.Effective : Deed S → Prop
  | .update _ | .expose .. | .leave .. | .task _ => True
  | _ => False

lemma Config.Does.moves (caller : Caller S) {c : Config S α} {deed : Deed S} (h : c.Does r deed)
    (hdeed : deed.Effective) : (c.moment r).Moves deed ((step caller c).moment r) := by
  cases deed with
  | update u =>
      rw [h.moment_update]
      exact .update _ u
  | expose name factory result =>
      rw [h.moment_expose]
      exact .expose _ name factory result
  | leave name opened result =>
      obtain ⟨names, hcreations, hmoment⟩ := h.moment_leave caller
      rw [hmoment]
      exact .leave _ opened result hcreations
  | task t =>
      rw [h.moment_task]
      exact .task _ t
  | _ => exact hdeed.elim

/-- A property of a registry that some deeds bring about, and that some deeds undo. No other deed
changes it. -/
structure Switched (P : Registry S → Prop) (sets : Registry S → Deed S → Prop)
    (undoes : Deed S → Prop) : Prop where
  effective : ∀ {g : Registry S} {deed : Deed S}, sets g deed ∨ undoes deed → deed.Effective
  apart : ∀ {g : Registry S} {deed : Deed S}, sets g deed → ¬ undoes deed
  law : ∀ {m m' : Moment S} {deed : Deed S}, m.Moves deed m' →
    (P m'.registry ↔ sets m.registry deed ∨ P m.registry ∧ ¬ undoes deed)

namespace Switched

variable {P : Registry S → Prop} {sets : Registry S → Deed S → Prop} {undoes : Deed S → Prop}
  {c : Config S α}

variable (caller) in
/-- After a step that undoes it, the property does not hold. -/
lemma not_step (h : Switched P sets undoes) (hundone : ∃ deed, c.Does r deed ∧ undoes deed) :
    ¬ P ((step caller c).world.registry r) := by
  obtain ⟨deed, hdoes, hundoes⟩ := hundone
  intro hafter
  have hmoves : (c.moment r).Moves deed ((step caller c).moment r) :=
    hdoes.moves caller (h.effective (g := c.world.registry r) (Or.inr hundoes))
  rcases (h.law hmoves).mp hafter with hsets | ⟨-, hkept⟩
  · exact h.apart hsets hundoes
  · exact hkept hundoes

variable (caller) in
/-- After a step the property holds if the step brings it about, or if it held before and the step
does not undo it. -/
lemma step_iff (h : Switched P sets undoes) :
    P ((step caller c).world.registry r) ↔
      (∃ deed, c.Does r deed ∧ sets (c.world.registry r) deed) ∨
        P (c.world.registry r) ∧ ¬ ∃ deed, c.Does r deed ∧ undoes deed := by
  obtain ⟨deed, hdoes, hmoves⟩ := step_moves caller r c
  constructor
  · intro hafter
    refine ((h.law hmoves).mp hafter).imp (fun hsets => ⟨deed, hdoes, hsets⟩) ?_
    exact fun hbefore => ⟨hbefore.1, fun hundone => h.not_step caller hundone hafter⟩
  · rintro (⟨other, hother, hsets⟩ | ⟨hbefore, hkept⟩)
    · exact (h.law (hother.moves caller (h.effective (Or.inl hsets)))).mpr (Or.inl hsets)
    · exact (h.law hmoves).mpr (Or.inr ⟨hbefore, fun hundoes => hkept ⟨deed, hdoes, hundoes⟩⟩)

end Switched

end Step

end InstanceRegistry
