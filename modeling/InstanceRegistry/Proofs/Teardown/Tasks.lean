import InstanceRegistry.Proofs.Relations
import InstanceRegistry.Proofs.Run.Calls

/-!
The tasks of a destruction, when the disposers and the observer keep off the registry. Then the
tasks alone decide what is done, and in which order.

* `Registry.perform`, `Registry.taskLines`: what a task does, and what it writes;
* `Clears`: a list of tasks is done, one after another;
* `Clears.preserves`: what every task keeps holds at the end;
* `exists_clears`: every list of tasks comes to an end, since a task that adds others takes as
  many pairs out of the relations;
* `ReportsFailures`, `Entry.shown`: disposers that keep off, and what is seen of their failures;
* `ReportsFailures.exists_reaches`: the run of a destruction does its tasks in this way;
* `SilentTeardown`: the same with nothing seen of failures.
-/

namespace InstanceRegistry

variable {S : Setup} {α γ : Type}

/-! ### Tasks -/

namespace Registry

/-- What a task does, apart from the disposer that it may run. -/
def perform (g : Registry S) : Task S → Change S (List (Task S))
  | .destroy name => g.beginDestroy name
  | .dispose _ _ => { registry := g, answer := [] }
  | .destroyContents name => g.openContents name
  | .forget name => g.forget name
  | .destroyAll => g.beginDestroyAll
  | .reset => g.reset

/-- The lines that a task adds to the journal, apart from those of a disposer that fails. -/
def taskLines (g : Registry S) (r : S.Index) : Task S → List (Entry S)
  | .dispose name disposer => [.started r name (.disposal disposer)]
  | task => (g.perform task).lines r

@[simp] lemma observer_perform (g : Registry S) (task : Task S) :
    (g.perform task).registry.observer = g.observer := by
  cases task <;> rfl

end Registry

/-- From the registry `g`, the tasks are done in order. They add the lines to the journal, and the
registry becomes `h`. -/
inductive Clears (r : S.Index) : Registry S → List (Task S) → List (Entry S) → Registry S → Prop
  | nil (g : Registry S) : Clears r g [] [] g
  | cons {g h : Registry S} {task : Task S} {tasks : List (Task S)} {lines : List (Entry S)}
      (rest : Clears r (g.perform task).registry ((g.perform task).answer ++ tasks) lines h) :
      Clears r g (task :: tasks) (g.taskLines r task ++ lines) h

namespace Clears

variable {r : S.Index}

/-- What every task keeps holds at the end, with the lines added to those before. -/
theorem preserves {P : Registry S → List (Task S) → List (Entry S) → Prop}
    (hstep : ∀ g task tasks before, P g (task :: tasks) before →
      P (g.perform task).registry ((g.perform task).answer ++ tasks)
        (before ++ g.taskLines r task))
    {g h : Registry S} {tasks : List (Task S)} {lines before : List (Entry S)}
    (hc : Clears r g tasks lines h) (hP : P g tasks before) : P h [] (before ++ lines) := by
  induction hc generalizing before with
  | nil g => rwa [List.append_nil]
  | cons rest ih =>
      rw [← List.append_assoc]
      exact ih (hstep _ _ _ _ hP)

/-- Tasks that follow others are done after them. -/
lemma of_append {g h : Registry S} {tasks more : List (Task S)} {lines : List (Entry S)}
    (hc : Clears r g (tasks ++ more) lines h) :
    ∃ m l₁ l₂, Clears r g tasks l₁ m ∧ Clears r m more l₂ h ∧ lines = l₁ ++ l₂ := by
  generalize htasks : tasks ++ more = all at hc
  induction hc generalizing tasks with
  | nil g =>
      obtain ⟨rfl, rfl⟩ := List.append_eq_nil_iff.mp htasks
      exact ⟨g, [], [], nil g, nil g, rfl⟩
  | @cons g h task rest' lines rest ih =>
      cases tasks with
      | nil =>
          rw [List.nil_append] at htasks
          subst htasks
          exact ⟨g, [], _, nil g, cons rest, rfl⟩
      | cons first tasks =>
          rw [List.cons_append, List.cons.injEq] at htasks
          obtain ⟨rfl, rfl⟩ := htasks
          obtain ⟨m, l₁, l₂, h₁, h₂, rfl⟩ := ih (List.append_assoc ..)
          exact ⟨m, _, l₂, cons h₁, h₂, (List.append_assoc ..).symm⟩

end Clears

/-! ### Every list of tasks comes to an end -/

namespace Registry

/-- How many pairs the relations hold along which a destruction goes on. -/
def pairs (g : Registry S) : ℕ := g.relations.dependents.edges + g.relations.contents.edges

/-- The share of a task in the work that is left. -/
def taskWeight (g : Registry S) : Task S → ℕ
  | .destroy _ => 4
  | .destroyAll => 4 * g.disposers.size + 2
  | _ => 1

/-- The work that is left: a pair counts as much as the destruction that it leads to. -/
def work (g : Registry S) (tasks : List (Task S)) : ℕ :=
  (tasks.map g.taskWeight).sum + 4 * g.pairs

lemma disposers_size_perform_le (g : Registry S) (task : Task S) :
    (g.perform task).registry.disposers.size ≤ g.disposers.size := by
  cases task with
  | destroy name => exact List.length_filter_le ..
  | _ => exact Nat.le_refl _

lemma taskWeight_perform_le (g : Registry S) (task other : Task S) :
    (g.perform task).registry.taskWeight other ≤ g.taskWeight other := by
  have hsize := disposers_size_perform_le g task
  cases other with
  | destroyAll => simp only [taskWeight]; omega
  | _ => exact Nat.le_refl _

lemma sum_taskWeight_destroy (g : Registry S) (names : List Name) :
    ((names.map Task.destroy).map g.taskWeight).sum = 4 * names.length := by
  induction names with
  | nil => rfl
  | cons name names ih =>
      simp only [List.map_cons, List.sum_cons, ih, taskWeight, List.length_cons]
      omega

/-- The tasks that a task puts first weigh less than the task and the pairs that it takes out. -/
lemma sum_taskWeight_perform_lt (g : Registry S) (task : Task S) :
    ((g.perform task).answer.map (g.perform task).registry.taskWeight).sum +
        4 * (g.perform task).registry.pairs < g.taskWeight task + 4 * g.pairs := by
  cases task with
  | destroy name =>
      have he := g.relations.dependents.edges_erase_add name
      have hown : (((g.disposers.get? name).toList.map (Task.dispose name)).map
          (g.perform (.destroy name)).registry.taskWeight).sum ≤ 1 := by
        cases g.disposers.get? name with
        | none => exact Nat.zero_le 1
        | some disposer => exact Nat.le_refl 1
      simp only [perform, beginDestroy, List.map_append, List.sum_append, sum_taskWeight_destroy,
        pairs, Relations.takeDependents, dependentsOf, purge] at hown ⊢
      simp only [taskWeight, List.map_cons, List.map_nil, List.sum_cons, List.sum_nil]
      omega
  | dispose name disposer => simp [perform, taskWeight, pairs]
  | destroyContents name =>
      have he := g.relations.contents.edges_erase_add name
      simp only [perform, openContents, sum_taskWeight_destroy, pairs, Relations.takeContents,
        containedIn, taskWeight]
      omega
  | forget name =>
      have he := g.relations.dependents.edges_unlinkAll_le name
      simp only [perform, forget, pairs, Relations.scrub, taskWeight, List.map_nil, List.sum_nil]
      omega
  | destroyAll =>
      simp only [perform, beginDestroyAll, List.map_append, List.sum_append,
        sum_taskWeight_destroy, List.length_reverse, disposerNames, NameMap.length_names, pairs,
        taskWeight, List.map_cons, List.map_nil, List.sum_cons, List.sum_nil]
      omega
  | reset =>
      have h : (g.perform .reset).registry.pairs = 0 := rfl
      have ha : (g.perform .reset).answer = [] := rfl
      rw [h, ha]
      simp only [taskWeight, List.map_nil, List.sum_nil]
      omega

lemma work_perform_lt (g : Registry S) (task : Task S) (tasks : List (Task S)) :
    (g.perform task).registry.work ((g.perform task).answer ++ tasks) <
      g.work (task :: tasks) := by
  have hrest : (tasks.map (g.perform task).registry.taskWeight).sum ≤
      (tasks.map g.taskWeight).sum :=
    List.sum_le_sum fun other _ => taskWeight_perform_le g task other
  have htask := sum_taskWeight_perform_lt g task
  simp only [work, List.map_append, List.sum_append, List.map_cons, List.sum_cons]
  omega

end Registry

/-- **Every destruction comes to an end**: from any registry, any list of tasks is done. -/
theorem exists_clears (r : S.Index) (g : Registry S) (tasks : List (Task S)) :
    ∃ lines h, Clears r g tasks lines h := by
  induction hn : g.work tasks using Nat.strong_induction_on generalizing g tasks with
  | _ n ih =>
      cases tasks with
      | nil => exact ⟨[], g, .nil g⟩
      | cons task tasks =>
          obtain ⟨lines, h, hc⟩ := ih _ (hn ▸ g.work_perform_lt task tasks) _ _ rfl
          exact ⟨_, h, .cons hc⟩

/-! ### The run of a destruction -/

/-- The lines that report how a disposer has ended. There are some if it has failed. -/
def failureLines (r : S.Index) (name : Name) : Except Error Unit → List (Entry S)
  | .ok _ => []
  | .error failure =>
    [.notice r (.disposerFailed name failure.message),
      .event r (.destroyFailed name failure.message)]

section Run

variable (caller : Caller S) (r : S.Index) (view : Entry S → Option γ)
  (reports : Name → S.Disposer → List γ)

/-- The disposers keep off the registry, and `reports` is what is seen of the lines about their
failures. -/
def ReportsFailures : Prop :=
  ∀ d w, ∃ result w', Ends caller (caller.disposer d) w result w' ∧
    w.Becomes r view (w.registry r) [] w' ∧
    ∀ name, (failureLines r name result).filterMap view = reports name d

/-- The disposers keep off the registry, and nothing is seen of the lines about their failures. -/
structure SilentTeardown : Prop where
  disposer : ∀ d, KeepsOff caller r view (caller.disposer d)
  notice : ∀ name reason, view (.notice r (.disposerFailed name reason)) = none
  event : ∀ name reason, view (.event r (.destroyFailed name reason)) = none

/-- What is seen of a line. The report of a failure follows where the disposer starts. -/
def Entry.shown : Entry S → List γ
  | .started s name (.disposal disposer) =>
    (view (.started s name (.disposal disposer))).toList ++ reports name disposer
  | e => (view e).toList

variable {caller r view reports}

lemma SilentTeardown.reportsFailures (hs : SilentTeardown caller r view) :
    ReportsFailures caller r view fun _ _ => [] := by
  intro d w
  obtain ⟨result, w', hends, hw'⟩ := hs.disposer d w
  refine ⟨result, w', hends, hw', fun name => ?_⟩
  cases result with
  | ok _ => rfl
  | error failure => simp [failureLines, hs.notice, hs.event]

lemma flatMap_shown_nil (lines : List (Entry S)) :
    lines.flatMap (Entry.shown view fun _ _ => []) = lines.filterMap view := by
  rw [List.filterMap_eq_flatMap_toList]
  refine List.flatMap_congr fun e _ => ?_
  cases e with
  | started s name work => cases work <;> simp [Entry.shown]
  | _ => rfl

/-- A change of a registry starts no disposer. -/
lemma flatMap_shown_lines {β : Type} (change : Registry.Change S β) :
    (change.lines r).flatMap (Entry.shown view reports) = (change.lines r).filterMap view := by
  rw [List.filterMap_eq_flatMap_toList]
  refine List.flatMap_congr fun e he => ?_
  rcases List.mem_append.mp he with he | he
  · obtain ⟨notice, -, rfl⟩ := List.mem_map.mp he
    rfl
  · obtain ⟨event, -, rfl⟩ := List.mem_map.mp he
    rfl

namespace ReportsFailures

variable {role : Role} {next : Script S (role.Result S α)} {stack : Stack S α role} {w : World S}

/-- A disposer runs, and the tasks after it are left. -/
lemma exists_reaches_dispose (hs : ReportsFailures caller r view reports) {name : Name}
    {disposer : S.Disposer} {tasks : List (Task S)}
    (hq : QuietlyObserved caller r view (w.registry r)) :
    ∃ w', Reaches caller ⟨role, .teardown r (.dispose name disposer :: tasks) next, stack, w⟩
        ⟨role, .teardown r tasks next, stack, w'⟩ ∧
      w.Becomes r view (w.registry r)
        (((w.registry r).taskLines r (.dispose name disposer)).flatMap (Entry.shown view reports))
        w' := by
  have hstart : w.Becomes r view (w.registry r)
      (view (.started r name (.disposal disposer))).toList
      (w.write (.started r name (.disposal disposer))) := by
    refine ⟨rfl, (World.seen_write w _).trans ?_⟩
    rw [List.filterMap_eq_flatMap_toList, List.flatMap_singleton]
  obtain ⟨result, w₁, hends, hw₁, hreport⟩ :=
    hs disposer (w.write (.started r name (.disposal disposer)))
  have hrun : Reaches caller
      ⟨.disposer, .script (caller.disposer disposer), .disposing r name tasks next stack,
        w.write (.started r name (.disposal disposer))⟩
      ⟨.disposer, .script (.done result), .disposing r name tasks next stack, w₁⟩ :=
    Ends.reaches_done hends
  have hr₁ : w₁.registry r = w.registry r := hw₁.registry
  have hshown : ((w.registry r).taskLines r (.dispose name disposer)).flatMap
      (Entry.shown view reports) =
        (view (.started r name (.disposal disposer))).toList ++ reports name disposer :=
    List.flatMap_singleton ..
  rw [hshown, ← hreport name]
  cases result with
  | ok _ =>
      exact ⟨w₁, Reaches.head rfl (hrun.trans (Reaches.next _)), hstart.trans hw₁⟩
  | error failure =>
      have hq' : QuietlyObserved caller r view
          ((w₁.registry r).reportFailure name failure).registry := hr₁ ▸ hq
      obtain ⟨w', hreach, hw'⟩ := exists_reaches_commit _
        (fun ahead => .teardown r (ahead ++ tasks) next) stack w₁ hq'
      refine ⟨w', Reaches.head rfl (hrun.trans (Reaches.head rfl hreach)), ?_⟩
      have hw := (hstart.trans hw₁).trans hw'
      rw [List.append_nil] at hw
      exact ⟨hw.registry.trans hr₁, hw.seen⟩

/-- A task is done, and those that it puts first and those after it are left. -/
lemma exists_reaches_task (hs : ReportsFailures caller r view reports) (task : Task S)
    {tasks : List (Task S)} (hq : QuietlyObserved caller r view (w.registry r)) :
    ∃ w', Reaches caller ⟨role, .teardown r (task :: tasks) next, stack, w⟩
        ⟨role, .teardown r (((w.registry r).perform task).answer ++ tasks) next, stack, w'⟩ ∧
      w.Becomes r view ((w.registry r).perform task).registry
        (((w.registry r).taskLines r task).flatMap (Entry.shown view reports)) w' := by
  have hq' : QuietlyObserved caller r view ((w.registry r).perform task).registry :=
    hq.of_observer (Registry.observer_perform ..)
  obtain ⟨w', hreach, hw'⟩ := exists_reaches_commit _
    (fun ahead => .teardown r (ahead ++ tasks) next) stack w hq'
  rw [← flatMap_shown_lines] at hw'
  cases task with
  | dispose name disposer => exact hs.exists_reaches_dispose hq
  | destroy name => exact ⟨w', Reaches.head rfl hreach, hw'⟩
  | destroyContents name => exact ⟨w', Reaches.head rfl hreach, hw'⟩
  | forget name => exact ⟨w', Reaches.head rfl hreach, hw'⟩
  | destroyAll => exact ⟨w', Reaches.head rfl hreach, hw'⟩
  | reset => exact ⟨w', Reaches.head rfl hreach, hw'⟩

/-- The run of a destruction does its tasks, whatever waits for it. -/
theorem exists_reaches (hs : ReportsFailures caller r view reports)
    {g h : Registry S} {tasks : List (Task S)} {lines : List (Entry S)}
    (hc : Clears r g tasks lines h) (hg : w.registry r = g)
    (hq : QuietlyObserved caller r view g) :
    ∃ w', Reaches caller ⟨role, .teardown r tasks next, stack, w⟩ ⟨role, .script next, stack, w'⟩ ∧
      w.Becomes r view h (lines.flatMap (Entry.shown view reports)) w' := by
  induction hc generalizing w with
  | nil g => exact ⟨w, Reaches.next _, hg ▸ World.Becomes.refl w⟩
  | @cons g h task tasks lines rest ih =>
      subst hg
      obtain ⟨w₁, hreach₁, hw₁⟩ := hs.exists_reaches_task task hq
      have hq₁ : QuietlyObserved caller r view ((w.registry r).perform task).registry :=
        hq.of_observer (Registry.observer_perform ..)
      obtain ⟨w', hreach, hw'⟩ := ih hw₁.registry hq₁
      refine ⟨w', hreach₁.trans hreach, ?_⟩
      rw [List.flatMap_append]
      exact hw₁.trans hw'

/-- The destruction of a name ends, and does its tasks. -/
theorem exists_ends_destroy (hs : ReportsFailures caller r view reports) {name : Name}
    {h : Registry S} {lines : List (Entry S)}
    (hc : Clears r (w.registry r) [.destroy name] lines h)
    (hq : QuietlyObserved caller r view (w.registry r)) :
    ∃ w', Ends caller (Script.destroy r name) w () w' ∧
      w.Becomes r view h (lines.flatMap (Entry.shown view reports)) w' := by
  obtain ⟨w', hreach, hw'⟩ : ∃ w', Reaches caller
      ⟨.client, .teardown r [.destroy name] (.done ()), .bottom, w⟩
      ⟨.client, .script (.done ()), .bottom, w'⟩ ∧
        w.Becomes r view h (lines.flatMap (Entry.shown view reports)) w' :=
    hs.exists_reaches hc rfl hq
  exact ⟨w', Reaches.head rfl hreach, hw'⟩

/-- The destruction of all names ends, and does its tasks after its announcement. -/
theorem exists_ends_destroyAll (hs : ReportsFailures caller r view reports) {h : Registry S}
    {lines : List (Entry S)} (hc : Clears r (w.registry r) [.destroyAll] lines h)
    (hq : QuietlyObserved caller r view (w.registry r)) :
    ∃ w', Ends caller (Script.destroyAll r) w () w' ∧
      w.Becomes r view h (((w.registry r).announceDestroyAll.lines r ++ lines).flatMap
        (Entry.shown view reports)) w' := by
  obtain ⟨w₁, hreach₁, hw₁⟩ := exists_reaches_commit (w.registry r).announceDestroyAll
    (fun tasks => .teardown r tasks (.done ())) Stack.bottom w hq
  obtain ⟨w', hreach, hw'⟩ := hs.exists_reaches hc hw₁.registry hq
  refine ⟨w', Reaches.head rfl (hreach₁.trans hreach), ?_⟩
  rw [List.flatMap_append, flatMap_shown_lines]
  exact hw₁.trans hw'

end ReportsFailures

/-- The destruction of a name ends, and does its tasks. -/
theorem SilentTeardown.exists_ends_destroy (hs : SilentTeardown caller r view) (name : Name)
    {w : World S} (hq : QuietlyObserved caller r view (w.registry r)) :
    ∃ lines h w', Clears r (w.registry r) [.destroy name] lines h ∧
      Ends caller (Script.destroy r name) w () w' ∧
      w.Becomes r view h (lines.filterMap view) w' := by
  obtain ⟨lines, h, hc⟩ := exists_clears r (w.registry r) [.destroy name]
  obtain ⟨w', hends, hw'⟩ := hs.reportsFailures.exists_ends_destroy hc hq
  rw [flatMap_shown_nil] at hw'
  exact ⟨lines, h, w', hc, hends, hw'⟩

/-- The destruction of all names ends, and does its tasks after its announcement. -/
theorem SilentTeardown.exists_ends_destroyAll (hs : SilentTeardown caller r view) {w : World S}
    (hq : QuietlyObserved caller r view (w.registry r)) :
    ∃ lines h w', Clears r (w.registry r) [.destroyAll] lines h ∧
      Ends caller (Script.destroyAll r) w () w' ∧
      w.Becomes r view h
        (((w.registry r).announceDestroyAll.lines r ++ lines).filterMap view) w' := by
  obtain ⟨lines, h, hc⟩ := exists_clears r (w.registry r) [.destroyAll]
  obtain ⟨w', hends, hw'⟩ := hs.reportsFailures.exists_ends_destroyAll hc hq
  rw [flatMap_shown_nil] at hw'
  exact ⟨lines, h, w', hc, hends, hw'⟩

end Run

end InstanceRegistry
