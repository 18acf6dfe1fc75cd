import InstanceRegistry.Proofs.Run.Moments

/-!
The early factories that are running. An early factory is taken out of its registry for as long as
it runs, so the lookups that wait for one tell which names have theirs outside.

* `Stack.loans`, `Config.loans`: the early factories that run, with their names;
* `Stack.exposures`, `Config.exposures`: the names whose early factories run;
* `Config.Does.loans_expose`, `Config.Does.exposures_expose`, `Config.Does.mem_exposures`: the end
  of an early factory ends the innermost of them;
* `Config.Does.registry_take`: a lookup that starts none;
* `Config.Lends`, `step_loans`: a step leaves them as they are, or starts one that a lookup took
  out, or ends one;
* `Config.Turns`, `step_exposures`: the same for the names alone.
-/

namespace InstanceRegistry

variable {S : Setup} {α β : Type} {caller : Caller S} {r : S.Index}

/-- The early factories that are running, with their names, by the lookups of a registry that wait
for them, the innermost first. -/
def Stack.loans (r : S.Index) : {role : Role} → Stack S α role → List (Name × S.Factory)
  | _, .bottom => []
  | _, .creating _ _ _ _ below => below.loans r
  | _, .exposing s name factory _ below =>
    if s = r then (name, factory) :: below.loans r else below.loans r
  | _, .disposing _ _ _ _ below => below.loans r
  | _, .observing _ below => below.loans r

/-- The names whose early factories are running, by the lookups of a registry that wait for them,
the innermost first. -/
def Stack.exposures (r : S.Index) : {role : Role} → Stack S α role → List Name
  | _, .bottom => []
  | _, .creating _ _ _ _ below => below.exposures r
  | _, .exposing s name _ _ below =>
    if s = r then name :: below.exposures r else below.exposures r
  | _, .disposing _ _ _ _ below => below.exposures r
  | _, .observing _ below => below.exposures r

/-- The early factories that are running in a configuration, with their names. -/
def Config.loans (r : S.Index) (c : Config S α) : List (Name × S.Factory) := c.stack.loans r

/-- The names whose early factories are running in a configuration. -/
def Config.exposures (r : S.Index) (c : Config S α) : List Name := c.stack.exposures r

lemma Stack.exposures_eq {role : Role} (stack : Stack S α role) :
    stack.exposures r = (stack.loans r).map Prod.fst := by
  induction stack with
  | bottom => rfl
  | creating s name opened next below ih => exact ih
  | exposing s name factory next below ih =>
      simp only [Stack.exposures, Stack.loans]
      split
      · rw [ih, List.map_cons]
      · exact ih
  | disposing s name tasks next below ih => exact ih
  | observing next below ih => exact ih

lemma Config.exposures_eq (c : Config S α) : c.exposures r = (c.loans r).map Prod.fst :=
  c.stack.exposures_eq

section Step

variable {s : S.Index} {role : Role} {stack : Stack S α role} {w : World S}

@[simp] lemma loans_report (event : Option Event) (next : Activity S (role.Result S α)) :
    (report caller s event next stack w).loans r = stack.loans r := by
  unfold report
  split
  · rfl
  · split <;> rfl

@[simp] lemma loans_commit (change : Registry.Change S β)
    (next : β → Activity S (role.Result S α)) :
    (commit caller s change next stack w).loans r = stack.loans r :=
  loans_report change.event _

section Does

variable {c : Config S α} {name : Name} {factory : S.Factory} {result : Except Error S.Object}

variable (caller) in
/-- The early factory that ends is the innermost one. -/
lemma Config.Does.loans_expose (h : c.Does r (.expose name factory result)) :
    c.loans r = (name, factory) :: (step caller c).loans r := by
  cases h
  exact (if_pos rfl).trans (congrArg (_ :: ·) (loans_commit _ _).symm)

variable (caller) in
/-- The end of an early factory is the end of the innermost one. -/
lemma Config.Does.exposures_expose (h : c.Does r (.expose name factory result)) :
    c.exposures r = name :: (step caller c).exposures r := by
  rw [Config.exposures_eq, Config.exposures_eq, h.loans_expose caller, List.map_cons]

/-- The early factory that ends was running. -/
lemma Config.Does.mem_exposures (h : c.Does r (.expose name factory result)) :
    name ∈ c.exposures r := by
  cases h
  exact List.mem_of_mem_head? (congrArg List.head? (if_pos rfl))

/-- A lookup that leaves the early factories that run as they are leaves the registry as it is. -/
lemma Config.Does.registry_take (h : c.Does r (.take name))
    (hexposures : (step caller c).exposures r = c.exposures r) :
    (step caller c).world.registry r = c.world.registry r := by
  cases h with
  | @take role _ early next stack w =>
      cases hlookup : (w.registry r).lookup name early with
      | answered object => simp only [step, stepScript, hlookup]
      | expose factory g =>
          have hlonger : (step caller (⟨role, .script (.find r name early next), stack, w⟩ :
              Config S α)).exposures r = name :: stack.exposures r := by
            simp only [step, stepScript, hlookup]
            exact if_pos rfl
          exact absurd (congrArg List.length (hlonger.symm.trans hexposures))
            (Nat.succ_ne_self _)

end Does

variable (caller r) in
/-- The step leaves the early factories that run as they are, or starts one that a lookup took out,
or ends one. -/
def Config.Lends (c : Config S α) : Prop :=
  (step caller c).loans r = c.loans r ∨
  (∃ name early factory g, (c.world.registry r).lookup name early = .expose factory g ∧
    (step caller c).world.registry r = g ∧
    (step caller c).loans r = (name, factory) :: c.loans r) ∨
  ∃ name factory result, c.Does r (.expose name factory result)

/-- The end of a call's code ends an early factory if a lookup waits for it. -/
lemma step_done_lends (stack : Stack S α role) (result : role.Result S α) (w : World S) :
    Config.Lends caller r ⟨role, .script (.done result), stack, w⟩ := by
  cases stack with
  | bottom => exact Or.inl rfl
  | creating s name opened next below => exact Or.inl (loans_commit _ _)
  | exposing s name factory next below =>
      by_cases hs : s = r
      · subst hs
        exact Or.inr (Or.inr ⟨name, factory, result, .expose name factory result⟩)
      · exact Or.inl ((loans_commit _ _).trans (if_neg hs).symm)
  | disposing s name tasks next below =>
      cases result with
      | ok _ => exact Or.inl rfl
      | error failure => exact Or.inl (loans_commit _ _)
  | observing next below => exact Or.inl rfl

lemma step_find_lends (s : S.Index) (name : Name) (early : Bool)
    (next : Except Error (Option S.Object) → Script S (role.Result S α)) (stack : Stack S α role)
    (w : World S) : Config.Lends caller r ⟨role, .script (.find s name early next), stack, w⟩ := by
  cases h : (w.registry s).lookup name early with
  | answered object =>
      left
      simp only [step, stepScript, h]
      rfl
  | expose factory g =>
      by_cases hs : s = r
      · subst hs
        refine Or.inr (Or.inl ⟨name, early, factory, g, h, ?_, ?_⟩)
        · simp only [step, stepScript, h]
          simp
        · simp only [step, stepScript, h]
          exact if_pos rfl
      · left
        simp only [step, stepScript, h]
        exact if_neg hs

variable (caller r) in
/-- **How the early factories that run change**: from one configuration of a run to the next one
they stay the same, or a lookup starts one that is then missing in the registry, or the innermost
one ends. -/
theorem step_loans (c : Config S α) : c.Lends caller r := by
  obtain ⟨role, activity, stack, w⟩ := c
  cases activity with
  | teardown s tasks next =>
      left
      cases tasks with
      | nil => rfl
      | cons t tasks =>
          cases t with
          | dispose name disposer => rfl
          | _ => exact loans_commit _ _
  | script script =>
      cases script with
      | done result => exact step_done_lends stack result w
      | call s u next => exact Or.inl (loans_commit _ _)
      | find s name early next => exact step_find_lends s name early next stack w
      | demand s name factory next =>
          left
          cases h : (w.registry s).demand name <;>
            simp only [step, stepScript, h] <;> rfl
      | tearDownAll s next => exact Or.inl (loans_commit _ _)
      | _ => exact Or.inl rfl

variable (caller r) in
/-- The step leaves the names whose early factories run as they are, or a lookup starts one, or one
ends. -/
def Config.Turns (c : Config S α) : Prop :=
  (step caller c).exposures r = c.exposures r ∨
  (∃ name early factory g, (c.world.registry r).lookup name early = .expose factory g ∧
    (step caller c).world.registry r = g ∧
    (step caller c).exposures r = name :: c.exposures r) ∨
  ∃ name factory result, c.Does r (.expose name factory result)

variable (caller r) in
/-- How the names whose early factories run change. -/
theorem step_exposures (c : Config S α) : c.Turns caller r := by
  rcases step_loans caller r c with hsame | ⟨name, early, factory, g, hlookup, hregistry, hstarts⟩ |
    hends
  · exact Or.inl (by rw [Config.exposures_eq, Config.exposures_eq, hsame])
  · refine Or.inr (Or.inl ⟨name, early, factory, g, hlookup, hregistry, ?_⟩)
    rw [Config.exposures_eq, Config.exposures_eq, hstarts, List.map_cons]
  · exact Or.inr (Or.inr hends)

end Step

end InstanceRegistry
