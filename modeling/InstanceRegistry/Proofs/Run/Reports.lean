import InstanceRegistry.Proofs.Run.Answers

/-!
The reported errors of a registry in a run. They are kept in a record, which a creation opens if
there is none, and which is ended together with that creation.

* `Stack.openings`, `Config.openings`: the creations under way, with who of them has opened the
  record;
* `Update.reports`, `Config.reports`, `reported`: the errors that an operation, a step and a number
  of steps report;
* `Registry.suppressed_apply` and the like: nothing else changes the record;
* `Config.Records`, `step_records`: a step adds to the record what it reports, or begins a creation,
  or ends one.
-/

namespace InstanceRegistry

variable {S : Setup} {α β : Type} {caller : Caller S} {r : S.Index}

/-! ### Openings -/

/-- The creations of a registry that are under way, the innermost first, and whether each of them
has opened the record of reported errors. -/
def Stack.openings (r : S.Index) : {role : Role} → Stack S α role → List (Name × Bool)
  | _, .bottom => []
  | _, .creating s name opened _ below =>
    if s = r then (name, opened) :: below.openings r else below.openings r
  | _, .exposing _ _ _ _ below => below.openings r
  | _, .disposing _ _ _ _ below => below.openings r
  | _, .observing _ below => below.openings r

/-- The creations that are under way in a configuration. -/
def Config.openings (r : S.Index) (c : Config S α) : List (Name × Bool) := c.stack.openings r

lemma Stack.creations_eq_map {role : Role} (stack : Stack S α role) :
    stack.creations r = (stack.openings r).map Prod.fst := by
  induction stack with
  | bottom => rfl
  | creating s name opened next below ih =>
      by_cases hs : s = r <;> simp [creations, openings, hs, ih]
  | exposing s name factory next below ih => exact ih
  | disposing s name tasks next below ih => exact ih
  | observing next below ih => exact ih

/-! ### Reports -/

/-- The errors that an operation reports. -/
def Update.reports : Update S → List Error
  | .suppress error => [error]
  | _ => []

/-- The errors that the next step reports to a registry. -/
def Config.reports (r : S.Index) : Config S α → List Error
  | ⟨_, .script (.call s u _), _, _⟩ => if s = r then u.reports else []
  | _ => []

variable (caller r) in
/-- The errors that the next steps report to a registry, in order. -/
def reported : ℕ → Config S α → List Error
  | 0, _ => []
  | steps + 1, c => c.reports r ++ reported steps (step caller c)

lemma reported_succ' (steps : ℕ) (c : Config S α) :
    reported caller r (steps + 1) c =
      reported caller r steps c ++ (run caller steps c).reports r := by
  induction steps generalizing c with
  | zero => simp [reported, run]
  | succ steps ih => rw [reported, ih, run_succ, reported, List.append_assoc]

/-! ### The record -/

namespace Registry

/-- An operation adds to the record what it reports, if there is a record. -/
lemma suppressed_apply (g : Registry S) (u : Update S) :
    (g.apply u).registry.suppressed = g.suppressed.map (· ++ u.reports) := by
  have hsame : g.suppressed = g.suppressed.map (· ++ []) := by simp
  cases u with
  | registerAlias name key =>
      simp only [apply, registerAlias]
      split <;> exact hsame
  | removeAlias key =>
      simp only [apply, removeAlias]
      split <;> exact hsame
  | resolveAliases resolver =>
      simp only [apply, resolveAliases]
      split <;> exact hsame
  | register name object =>
      simp only [apply, register]
      split
      · exact hsame
      · split
        · split <;> exact hsame
        · exact hsame
  | provideEarly name factory =>
      simp only [apply, provideEarly]
      split <;> exact hsame
  | contain outer inner =>
      simp only [apply, contain]
      split <;> exact hsame
  | suppress error => rfl
  | _ => exact hsame

lemma suppressed_perform (g : Registry S) (t : Task S) :
    (g.perform t).registry.suppressed = g.suppressed := by
  cases t <;> rfl

lemma suppressed_finishExposure (g : Registry S) (name : Name) (factory : S.Factory)
    (result : Except Error S.Object) :
    (g.finishExposure name factory result).registry.suppressed = g.suppressed := by
  cases result with
  | ok object => rfl
  | error e =>
      simp only [finishExposure]
      split <;> rfl

end Registry

/-! ### Steps -/

section Step

variable {s : S.Index} {role : Role} {stack : Stack S α role} {w : World S}

@[simp] lemma openings_commit (change : Registry.Change S β)
    (next : β → Activity S (role.Result S α)) :
    (commit caller s change next stack w).openings r = stack.openings r := by
  unfold commit report
  split
  · rfl
  · split <;> rfl

lemma registry_commit_self (change : Registry.Change S β)
    (next : β → Activity S (role.Result S α)) :
    (commit caller r change next stack w).world.registry r = change.registry :=
  congrArg Moment.registry (moment_commit_self change next)

lemma registry_commit_of_ne (hs : r ≠ s) (change : Registry.Change S β)
    (next : β → Activity S (role.Result S α)) :
    (commit caller s change next stack w).world.registry r = w.registry r :=
  congrArg Moment.registry (moment_commit_of_ne hs change next)

variable (r) in
/-- The step from `c` to `d` adds to the record what it reports; or it reports nothing, and begins a
creation, which opens the record if there is none, or ends one, and the record if that one has
opened it. -/
def Config.Records (c d : Config S α) : Prop :=
  (d.openings r = c.openings r ∧
    (d.world.registry r).suppressed =
      (c.world.registry r).suppressed.map (· ++ c.reports r)) ∨
  (c.reports r = [] ∧ ∃ name,
    d.openings r = (name, (c.world.registry r).suppressed.isNone) :: c.openings r ∧
      (d.world.registry r).suppressed = some ((c.world.registry r).suppressed.getD [])) ∨
  (c.reports r = [] ∧ ∃ name opened, c.openings r = (name, opened) :: d.openings r ∧
    (d.world.registry r).suppressed = if opened then none else (c.world.registry r).suppressed)

/-- A step that reports nothing leaves the record as it is. -/
lemma Config.records_of_same {c d : Config S α} (hopenings : d.openings r = c.openings r)
    (hsuppressed : (d.world.registry r).suppressed = (c.world.registry r).suppressed)
    (hreports : c.reports r = []) : c.Records r d := by
  refine Or.inl ⟨hopenings, ?_⟩
  rw [hsuppressed, hreports]
  simp

/-- A change of a registry reports to that registry and to no other. -/
lemma Config.records_commit {c : Config S α} (change : Registry.Change S β)
    (next : β → Activity S (role.Result S α)) (hworld : c.world = w)
    (hopenings : stack.openings r = c.openings r) (hreports : s ≠ r → c.reports r = [])
    (hsuppressed : s = r → change.registry.suppressed =
      (w.registry r).suppressed.map (· ++ c.reports r)) :
    c.Records r (commit caller s change next stack w) := by
  have hopenings' : (commit caller s change next stack w).openings r = c.openings r := by
    rw [openings_commit, hopenings]
  subst hworld
  by_cases hs : s = r
  · subst hs
    refine Or.inl ⟨hopenings', ?_⟩
    rw [registry_commit_self]
    exact hsuppressed rfl
  · have hregistry :
        (commit caller s change next stack c.world).world.registry r = c.world.registry r :=
      registry_commit_of_ne (Ne.symm hs) change next
    exact Config.records_of_same hopenings' (congrArg Registry.suppressed hregistry) (hreports hs)

/-- The end of a call's code ends a creation if a request waits for it. -/
lemma step_done_records (stack : Stack S α role) (result : role.Result S α) (w : World S) :
    Config.Records r ⟨role, .script (.done result), stack, w⟩
      (step caller ⟨role, .script (.done result), stack, w⟩) := by
  have hsame : ∀ g : Registry S, g.suppressed = g.suppressed.map (· ++ []) := fun g => by simp
  cases stack with
  | bottom => exact Config.records_of_same rfl rfl rfl
  | creating s name opened next below =>
      by_cases hs : s = r
      · subst hs
        refine Or.inr (Or.inr ⟨rfl, name, opened, ?_, ?_⟩)
        · exact (if_pos rfl).trans (congrArg (_ :: ·) (openings_commit _ _).symm)
        · exact (congrArg Registry.suppressed (registry_commit_self _ _)).trans
            Registry.suppressed_finishCreation
      · exact Config.records_commit _ _ rfl (if_neg hs).symm (fun _ => rfl) fun h => absurd h hs
  | exposing s name factory next below =>
      refine Config.records_commit _ _ rfl rfl (fun _ => rfl) fun hs => ?_
      subst hs
      exact (Registry.suppressed_finishExposure _ name factory result).trans (hsame _)
  | disposing s name tasks next below =>
      cases result with
      | ok _ => exact Config.records_of_same rfl rfl rfl
      | error failure =>
          refine Config.records_commit _ _ rfl rfl (fun _ => rfl) fun hs => ?_
          subst hs
          exact hsame _
  | observing next below => exact Config.records_of_same rfl rfl rfl

lemma step_find_records (s : S.Index) (name : Name) (early : Bool)
    (next : Except Error (Option S.Object) → Script S (role.Result S α)) (stack : Stack S α role)
    (w : World S) :
    Config.Records r ⟨role, .script (.find s name early next), stack, w⟩
      (step caller ⟨role, .script (.find s name early next), stack, w⟩) := by
  cases h : (w.registry s).lookup name early with
  | answered object =>
      simp only [step, stepScript, h]
      exact Config.records_of_same rfl rfl rfl
  | expose factory g =>
      simp only [step, stepScript, h]
      have hsuppressed : g.suppressed = (w.registry s).suppressed := by
        rw [Registry.eq_of_lookup_eq_expose h]
      refine Config.records_of_same rfl ?_ rfl
      by_cases hs : s = r
      · subst hs
        rw [World.registry_write, World.registry_setRegistry_self]
        exact hsuppressed
      · rw [World.registry_write, World.registry_setRegistry_of_ne w (Ne.symm hs)]

lemma step_demand_records (s : S.Index) (name : Name) (factory : S.Factory)
    (next : Except Error S.Object → Script S (role.Result S α)) (stack : Stack S α role)
    (w : World S) :
    Config.Records r ⟨role, .script (.demand s name factory next), stack, w⟩
      (step caller ⟨role, .script (.demand s name factory next), stack, w⟩) := by
  cases h : (w.registry s).demand name with
  | answered answer notices =>
      simp only [step, stepScript, h]
      exact Config.records_of_same rfl rfl rfl
  | create g opened =>
      simp only [step, stepScript, h]
      by_cases hs : s = r
      · subst hs
        obtain ⟨rfl, hsuppressed⟩ := Registry.suppressed_of_demand h
        refine Or.inr (Or.inl ⟨rfl, name, if_pos rfl, ?_⟩)
        rw [World.registry_write, World.registry_log, World.registry_setRegistry_self]
        exact hsuppressed
      · refine Config.records_of_same (if_neg hs) ?_ rfl
        rw [World.registry_write, World.registry_log,
          World.registry_setRegistry_of_ne w (Ne.symm hs)]

lemma step_teardown_records (s : S.Index) (tasks : List (Task S))
    (next : Script S (role.Result S α)) (stack : Stack S α role) (w : World S) :
    Config.Records r ⟨role, .teardown s tasks next, stack, w⟩
      (step caller ⟨role, .teardown s tasks next, stack, w⟩) := by
  cases tasks with
  | nil => exact Config.records_of_same rfl rfl rfl
  | cons t tasks =>
      have hsame : s = r → ((w.registry s).perform t).registry.suppressed =
          (w.registry r).suppressed.map (· ++ []) := fun hs => by
        subst hs
        rw [Registry.suppressed_perform]
        simp
      cases t with
      | dispose name disposer => exact Config.records_of_same rfl rfl rfl
      | _ => exact Config.records_commit _ _ rfl rfl (fun _ => rfl) hsame

variable (caller r) in
/-- **How the record of reported errors changes**: from one configuration of a run to the next one
it gets what is reported, and beyond that only creations begin and end it. -/
theorem step_records (c : Config S α) : c.Records r (step caller c) := by
  obtain ⟨role, activity, stack, w⟩ := c
  cases activity with
  | teardown s tasks next => exact step_teardown_records s tasks next stack w
  | script script =>
      cases script with
      | done result => exact step_done_records stack result w
      | call s u next =>
          refine Config.records_commit _ _ rfl rfl (fun hs => if_neg hs) fun hs => ?_
          subst hs
          simp only [Config.reports, if_true]
          exact Registry.suppressed_apply _ u
      | find s name early next => exact step_find_records s name early next stack w
      | demand s name factory next => exact step_demand_records s name factory next stack w
      | tearDownAll s next =>
          refine Config.records_commit _ _ rfl rfl (fun _ => rfl) fun hs => ?_
          subst hs
          simp [Config.reports, Registry.announceDestroyAll]
      | _ => exact Config.records_of_same rfl rfl rfl

end Step

end InstanceRegistry
