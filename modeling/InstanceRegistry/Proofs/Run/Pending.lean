import InstanceRegistry.Proofs.Run.Moments

/-!
The tasks that are left to do in a run, of all destructions of a registry together. A disposer and
an observer may begin further destructions, so there can be many of them, one inside the other.

* `Activity.tasks`, `Stack.tasks`, `Config.pending`: the tasks that are left, those of the innermost
  destruction first;
* `Config.Does.pending_task`: a task that is done makes room for its own tasks;
* `Config.Does.pending_update`: an operation leaves all tasks as they are;
* `pending_step_cases`, `exists_pending_step`, `suffix_pending_step`: every other step keeps all
  tasks, and at most adds one that a destruction begins with (`Task.isRoot`);
* `exists_does_of_mem_pending`: a task that is not left any more has been done.
-/

namespace InstanceRegistry

variable {S : Setup} {α β : Type} {caller : Caller S} {r s : S.Index} {role : Role}
  {stack : Stack S α role} {w : World S}

/-! ### Pending tasks -/

/-- The tasks of a destruction of the registry that goes on. -/
def Activity.tasks (r : S.Index) : Activity S α → List (Task S)
  | .script _ => []
  | .teardown s tasks _ => if s = r then tasks else []

/-- The tasks of the destructions of the registry that wait: for a disposer, or for the observer
that is told of one of their events. -/
def Stack.tasks (r : S.Index) : {role : Role} → Stack S α role → List (Task S)
  | _, .bottom => []
  | _, .creating _ _ _ _ below => below.tasks r
  | _, .exposing _ _ _ _ below => below.tasks r
  | _, .disposing s _ tasks _ below => (if s = r then tasks else []) ++ below.tasks r
  | _, .observing next below => next.tasks r ++ below.tasks r

/-- The tasks that are left to do, those of the innermost destruction first. -/
def Config.pending (r : S.Index) (c : Config S α) : List (Task S) :=
  c.activity.tasks r ++ c.stack.tasks r

/-! ### Steps -/

@[simp] lemma pending_report (event : Option Event) (next : Activity S (role.Result S α)) :
    (report caller s event next stack w).pending r = next.tasks r ++ stack.tasks r := by
  unfold report
  split
  · rfl
  · split <;> rfl

@[simp] lemma pending_commit (change : Registry.Change S β)
    (next : β → Activity S (role.Result S α)) :
    (commit caller s change next stack w).pending r =
      (next change.answer).tasks r ++ stack.tasks r :=
  pending_report _ _

variable (caller) in
/-- The first task is done. The tasks that come of it are the first ones then. -/
lemma Config.Does.pending_task {c : Config S α} {t : Task S} (h : c.Does r (.task t)) :
    ∃ rest, c.pending r = t :: rest ∧
      (step caller c).pending r = ((c.world.registry r).perform t).answer ++ rest := by
  cases h with
  | @task role _ tasks next stack w =>
      have hproceed : ∀ change : Registry.Change S (List (Task S)),
          (proceed caller r change tasks next stack w).pending r =
            change.answer ++ (tasks ++ stack.tasks r) := fun change => by
        rw [proceed, pending_commit, ← List.append_assoc]
        simp [Activity.tasks]
      refine ⟨tasks ++ stack.tasks r, by simp [pending, Activity.tasks], ?_⟩
      cases t with
      | dispose name disposer =>
          simp [step, stepTeardown, pending, Activity.tasks, Stack.tasks, Registry.perform]
      | _ => exact hproceed _

variable (caller) in
/-- An operation leaves all tasks as they are. -/
lemma Config.Does.pending_update {c : Config S α} {u : Update S} (h : c.Does r (.update u)) :
    (step caller c).pending r = c.pending r := by
  cases h
  exact pending_commit _ _

/-- The end of a call's code leaves all tasks as they are. -/
lemma pending_step_done (stack : Stack S α role) (result : role.Result S α) (w : World S) :
    (step caller ⟨role, .script (.done result), stack, w⟩).pending r = stack.tasks r := by
  cases stack with
  | bottom => rfl
  | creating s name opened next below => exact pending_commit _ _
  | exposing s name factory next below => exact pending_commit _ _
  | disposing s name tasks next below =>
      cases result with
      | ok _ => rfl
      | error failure => exact pending_commit _ _
  | observing next below => rfl

/-- A task of a destruction in another registry. -/
lemma pending_step_teardown {s : S.Index} (hs : s ≠ r) {role : Role} (t : Task S)
    (tasks : List (Task S)) (next : Script S (role.Result S α)) (stack : Stack S α role)
    (w : World S) :
    (step caller ⟨role, .teardown s (t :: tasks) next, stack, w⟩).pending r = stack.tasks r := by
  have hproceed : ∀ change : Registry.Change S (List (Task S)),
      (proceed caller s change tasks next stack w).pending r = stack.tasks r := by
    intro change
    rw [proceed, pending_commit]
    simp [Activity.tasks, hs]
  cases t with
  | dispose name disposer =>
      simp [step, stepTeardown, Config.pending, Activity.tasks, Stack.tasks, hs]
  | _ => exact hproceed _

/-- The tasks that a destruction begins with. -/
def Task.isRoot : Task S → Bool
  | .destroy _ | .destroyAll => true
  | _ => false

variable (caller) in
/-- A step that does no task of the registry keeps all of its tasks, and adds one only where a
destruction begins. -/
theorem pending_step_cases {c : Config S α} (h : ∀ t, ¬ c.Does r (.task t)) :
    (step caller c).pending r = c.pending r ∨
      (∃ (role : Role) (name : Name) (next : Script S (role.Result S α)) (stack : Stack S α role)
        (w : World S), c = ⟨role, .script (.tearDown r name next), stack, w⟩ ∧
          (step caller c).pending r = .destroy name :: c.pending r) ∨
      c.Does r .announce ∧ (step caller c).pending r = .destroyAll :: c.pending r := by
  obtain ⟨role, activity, stack, w⟩ := c
  cases activity with
  | teardown s tasks next =>
      left
      cases tasks with
      | nil => simp [step, stepTeardown, Config.pending, Activity.tasks]
      | cons t tasks =>
          have hs : s ≠ r := by
            rintro rfl
            exact h t (.task t)
          rw [pending_step_teardown hs]
          simp [Config.pending, Activity.tasks, hs]
  | script script =>
      cases script with
      | done result => exact Or.inl (pending_step_done stack result w)
      | call s u next => exact Or.inl (pending_commit _ _)
      | find s name early next =>
          left
          simp only [step, stepScript]
          split <;> rfl
      | demand s name factory next =>
          left
          simp only [step, stepScript]
          split <;> rfl
      | tearDown s name next =>
          by_cases hs : s = r
          · subst hs
            exact Or.inr (Or.inl ⟨role, name, next, stack, w, rfl,
              by simp [step, stepScript, Config.pending, Activity.tasks]⟩)
          · left
            simp [step, stepScript, Config.pending, Activity.tasks, hs]
      | tearDownAll s next =>
          have hpending : (step caller ⟨role, .script (.tearDownAll s next), stack, w⟩).pending r =
              (if s = r then [.destroyAll] else []) ++ stack.tasks r := pending_commit _ _
          by_cases hs : s = r
          · subst hs
            exact Or.inr (Or.inr ⟨.announce, by rw [hpending, if_pos rfl]; rfl⟩)
          · left
            rw [hpending, if_neg hs]
            rfl
      | _ => exact Or.inl rfl

variable (caller) in
/-- A step that does no task of the registry keeps all of its tasks. The tasks that it adds are
those that a destruction begins with. -/
theorem exists_pending_step {c : Config S α} (h : ∀ t, ¬ c.Does r (.task t)) :
    ∃ ahead, (step caller c).pending r = ahead ++ c.pending r ∧
      ∀ t ∈ ahead, t.isRoot = true := by
  rcases pending_step_cases caller h with hsame | ⟨_, name, _, _, _, -, hone⟩ | ⟨-, hall⟩
  · exact ⟨[], hsame, by simp⟩
  · exact ⟨[.destroy name], hone, fun t ht => List.mem_singleton.mp ht ▸ rfl⟩
  · exact ⟨[.destroyAll], hall, fun t ht => List.mem_singleton.mp ht ▸ rfl⟩

variable (caller) in
/-- A step that does no task of the registry keeps all of its tasks. -/
lemma suffix_pending_step {c : Config S α} (h : ∀ t, ¬ c.Does r (.task t)) :
    c.pending r <:+ (step caller c).pending r := by
  obtain ⟨ahead, hnext, -⟩ := exists_pending_step caller h
  exact ⟨ahead, hnext.symm⟩

/-! ### Runs -/

variable (caller) in
/-- A task is left until it is done. -/
lemma mem_pending_step {c : Config S α} {t : Task S} (h : t ∈ c.pending r) :
    c.Does r (.task t) ∨ t ∈ (step caller c).pending r := by
  by_cases htask : ∃ first, c.Does r (.task first)
  · obtain ⟨first, hfirst⟩ := htask
    obtain ⟨rest, hpending, hnext⟩ := hfirst.pending_task caller
    rw [hpending, List.mem_cons] at h
    rcases h with rfl | h
    · exact Or.inl hfirst
    · exact Or.inr (hnext ▸ List.mem_append_right _ h)
  · exact Or.inr ((suffix_pending_step caller (not_exists.mp htask)).subset h)

/-- A task that is left at one moment of a run, and not at a later one, is done in between. -/
lemma exists_does_of_mem_pending {c : Config S α} {t : Task S} {i j : ℕ}
    (hi : t ∈ (run caller i c).pending r) (hij : i ≤ j) (hj : t ∉ (run caller j c).pending r) :
    ∃ l, i ≤ l ∧ l < j ∧ (run caller l c).Does r (.task t) := by
  by_contra hnever
  simp only [not_exists, not_and] at hnever
  refine hj (run_preserves (fun d => t ∈ d.pending r) c hi (fun l hil hlj hmem => ?_) j hij le_rfl)
  exact (mem_pending_step caller hmem).resolve_left (hnever l hil hlj)

end InstanceRegistry
