import InstanceRegistry.Proofs.Teardown.Tasks

/-!
How far a destruction has come. The registry in the middle of a destruction is the registry at its
beginning, less what three growing sets of names say: the names that have been opened, whose
dependents and disposer are taken out; the emptied ones, whose contents are taken out; and the
forgotten ones, which are dropped from all lists of dependents.

* `Progress`, `Progress.after`: the three sets, and what a task adds to them;
* `Progress.Describes`: a registry is what a destruction has left of another one;
* `Progress.ahead`: the tasks that a task puts first, read off the registry at the beginning;
* `Progress.subject_of_mem_ahead`, `Progress.disposed_of_mem_ahead`,
  `Progress.eq_destroy_of_mem_ahead`: what they are about;
* `Clears.progress_registry`, `Clears.progress_seen`, `Clears.progress`: what every task keeps along
  the progress of a destruction holds at its end.
-/

namespace InstanceRegistry

variable {S : Setup}

/-! ### Names in tasks and lines -/

namespace Task

/-- The name that a task is about. -/
def subject : Task S → Option Name
  | destroy name => some name
  | dispose name _ => some name
  | destroyContents name => some name
  | forget name => some name
  | destroyAll => none
  | reset => none

/-- The name whose disposer a task runs. -/
def disposed : Task S → Option Name
  | dispose name _ => some name
  | _ => none

end Task

/-- The name whose disposer starts, as a line of the journal of the registry says. -/
def Entry.disposal? (r : S.Index) : Entry S → Option Name
  | .started s name (.disposal _) => if s = r then some name else none
  | _ => none

lemma filterMap_disposal?_lines {β : Type} (r : S.Index) (change : Registry.Change S β) :
    (change.lines r).filterMap (Entry.disposal? r) = [] := by
  rw [List.filterMap_eq_nil_iff]
  intro e he
  rcases List.mem_append.mp he with he | he
  · obtain ⟨notice, -, rfl⟩ := List.mem_map.mp he
    rfl
  · obtain ⟨event, -, rfl⟩ := List.mem_map.mp he
    rfl

lemma Registry.filterMap_disposal?_taskLines (g : Registry S) (r : S.Index) (task : Task S) :
    (g.taskLines r task).filterMap (Entry.disposal? r) = task.disposed.toList := by
  cases task with
  | dispose name disposer => simp [taskLines, Entry.disposal?, Task.disposed]
  | _ => exact filterMap_disposal?_lines r _

/-! ### Progress -/

/-- How far a destruction has come. -/
structure Progress where
  /-- The names whose dependents and disposer are taken out. -/
  opened : List Name := []
  /-- The names whose contents are taken out. -/
  emptied : List Name := []
  /-- The names that are dropped from all lists of dependents. -/
  forgotten : List Name := []

namespace Progress

/-- The progress after a task. -/
def after (p : Progress) : Task S → Progress
  | .destroy name => { p with opened := name :: p.opened }
  | .destroyContents name => { p with emptied := name :: p.emptied }
  | .forget name => { p with forgotten := name :: p.forgotten }
  | _ => p

/-- The tasks with which the destruction of a name begins that was not opened before. -/
def opening (p : Progress) (g : Registry S) (name : Name) : List (Task S) :=
  ((g.dependentsOf name).filter (· ∉ p.forgotten)).map Task.destroy ++
    (g.disposers.get? name).toList.map (Task.dispose name)

/-- The tasks that a task puts first, in a destruction that began with the registry `g`. -/
def ahead (p : Progress) (g : Registry S) : Task S → List (Task S)
  | .destroy name =>
    (if name ∈ p.opened then [] else p.opening g name) ++ [.destroyContents name, .forget name]
  | .destroyContents name =>
    if name ∈ p.emptied then [] else (g.containedIn name).map Task.destroy
  | _ => []

/-- The registry `h` is what a destruction has left of `g`. -/
structure Describes (p : Progress) (g h : Registry S) : Prop where
  dependents : ∀ a, h.dependentsOf a =
    if a ∈ p.opened then [] else (g.dependentsOf a).filter (· ∉ p.forgotten)
  contents : ∀ a, h.containedIn a = if a ∈ p.emptied then [] else g.containedIn a
  disposer : ∀ a, h.disposers.get? a = if a ∈ p.opened then none else g.disposers.get? a

variable {p : Progress} {g h : Registry S}

lemma Describes.start (g : Registry S) : Describes {} g g where
  dependents a := by simp
  contents a := by simp
  disposer a := by simp

/-- The tasks that a task puts first can be read off the progress. -/
lemma Describes.answer_perform (hd : p.Describes g h) {task : Task S} {name : Name}
    (hname : task.subject = some name) : (h.perform task).answer = p.ahead g task := by
  cases task with
  | destroy n =>
      simp only [Registry.perform, Registry.beginDestroy, hd.dependents, hd.disposer, ahead]
      by_cases hn : n ∈ p.opened <;> simp [hn, opening]
  | dispose n disposer => rfl
  | destroyContents n =>
      simp only [Registry.perform, Registry.openContents, hd.contents, ahead]
      by_cases hn : n ∈ p.emptied <;> simp [hn]
  | forget n => rfl
  | destroyAll => cases hname
  | reset => cases hname

/-- A task about a name brings the destruction to the progress after it. -/
lemma Describes.perform (hd : p.Describes g h) {task : Task S} {name : Name}
    (hname : task.subject = some name) :
    (p.after task).Describes g (h.perform task).registry := by
  cases task with
  | destroy n =>
      refine ⟨fun a => ?_, hd.contents, fun a => ?_⟩
      · have he : (h.perform (.destroy n)).registry.dependentsOf a =
            if a = n then [] else h.dependentsOf a := NameGraph.successors_erase _ n a
        rw [he, hd.dependents]
        by_cases ha : a = n
        · simp [ha, after]
        · have hopened : a ∈ n :: p.opened ↔ a ∈ p.opened := by simp [ha]
          show _ = if a ∈ n :: p.opened then [] else (g.dependentsOf a).filter (· ∉ p.forgotten)
          rw [if_neg ha]
          by_cases ha' : a ∈ p.opened
          · rw [if_pos ha', if_pos (hopened.mpr ha')]
          · rw [if_neg ha', if_neg (mt hopened.mp ha')]
      · have he : (h.perform (.destroy n)).registry.disposers.get? a =
            if a = n then none else h.disposers.get? a := NameMap.get?_erase _ n a
        rw [he, hd.disposer]
        by_cases ha : a = n <;> simp [ha, after]
  | dispose n disposer => exact hd
  | destroyContents n =>
      refine ⟨hd.dependents, fun a => ?_, hd.disposer⟩
      have he : (h.perform (.destroyContents n)).registry.containedIn a =
          if a = n then [] else h.containedIn a := NameGraph.successors_erase _ n a
      rw [he, hd.contents]
      by_cases ha : a = n <;> simp [ha, after]
  | forget n =>
      refine ⟨fun a => ?_, hd.contents, hd.disposer⟩
      have he : (h.perform (.forget n)).registry.dependentsOf a =
          (h.dependentsOf a).filter (· ≠ n) := NameGraph.successors_unlinkAll _ n a
      rw [he, hd.dependents]
      by_cases ha : a ∈ p.opened
      · simp [ha, after]
      · rw [if_neg ha, if_neg (show a ∉ (p.after (.forget n)).opened from ha), List.filter_filter]
        refine List.filter_congr fun b _ => ?_
        simp [after]
  | destroyAll => cases hname
  | reset => cases hname

/-! ### The tasks put first -/

lemma mem_ahead_destroy {n : Name} {other : Task S} :
    other ∈ p.ahead g (.destroy n) ↔
      (n ∉ p.opened ∧ ((∃ b ∈ g.dependentsOf n, b ∉ p.forgotten ∧ other = .destroy b) ∨
        ∃ d, g.disposers.get? n = some d ∧ other = .dispose n d)) ∨
      other = .destroyContents n ∨ other = .forget n := by
  have hd : ∀ d : Option S.Disposer,
      other ∈ d.toList.map (Task.dispose n) ↔ ∃ e, d = some e ∧ other = .dispose n e := by
    intro d
    cases d <;> simp
  by_cases hn : n ∈ p.opened
  · simp [ahead, hn]
  · simp only [ahead, hn, if_false, opening, List.mem_append, hd, List.mem_map, List.mem_filter,
      List.mem_cons, List.not_mem_nil, or_false, not_false_eq_true, true_and, decide_eq_true_iff]
    simp only [and_assoc, eq_comm (a := other)]

lemma mem_ahead_destroyContents {n : Name} {other : Task S} :
    other ∈ p.ahead g (.destroyContents n) ↔
      n ∉ p.emptied ∧ ∃ b ∈ g.containedIn n, other = .destroy b := by
  by_cases hn : n ∈ p.emptied
  · simp [ahead, hn]
  · simp [ahead, hn, eq_comm]

/-- A task puts first tasks about its own name and about the names that it takes along. -/
lemma subject_of_mem_ahead {task other : Task S} (h : other ∈ p.ahead g task) :
    ∃ a b, task.subject = some a ∧ other.subject = some b ∧
      (b = a ∨ b ∈ g.dependentsOf a ∨ b ∈ g.containedIn a) := by
  cases task with
  | destroy n =>
      rcases mem_ahead_destroy.mp h with ⟨-, ⟨b, hb, -, rfl⟩ | ⟨d, -, rfl⟩⟩ | rfl | rfl
      · exact ⟨n, b, rfl, rfl, Or.inr (Or.inl hb)⟩
      · exact ⟨n, n, rfl, rfl, Or.inl rfl⟩
      · exact ⟨n, n, rfl, rfl, Or.inl rfl⟩
      · exact ⟨n, n, rfl, rfl, Or.inl rfl⟩
  | destroyContents n =>
      obtain ⟨-, b, hb, rfl⟩ := mem_ahead_destroyContents.mp h
      exact ⟨n, b, rfl, rfl, Or.inr (Or.inr hb)⟩
  | _ => cases h

/-- Only the task that opens a name puts the disposer of the name first. -/
lemma disposed_of_mem_ahead {task other : Task S} {n : Name} (h : other ∈ p.ahead g task)
    (hn : other.disposed = some n) : task = .destroy n ∧ n ∉ p.opened := by
  cases task with
  | destroy m =>
      rcases mem_ahead_destroy.mp h with ⟨hm, ⟨b, -, -, rfl⟩ | ⟨d, -, rfl⟩⟩ | rfl | rfl
      · cases hn
      · obtain rfl : m = n := Option.some.inj hn
        exact ⟨rfl, hm⟩
      · cases hn
      · cases hn
  | destroyContents m =>
      obtain ⟨-, b, -, rfl⟩ := mem_ahead_destroyContents.mp h
      cases hn
  | _ => cases h

/-- Only the task that destroys a name puts the last tasks of its destruction first. -/
lemma eq_destroy_of_mem_ahead {task other : Task S} {n : Name} (h : other ∈ p.ahead g task)
    (hn : other = .destroyContents n ∨ other = .forget n) : task = .destroy n := by
  cases task with
  | destroy m =>
      rcases mem_ahead_destroy.mp h with ⟨-, ⟨b, -, -, rfl⟩ | ⟨d, -, rfl⟩⟩ | rfl | rfl
      · simp at hn
      · simp at hn
      · simpa using hn
      · simpa using hn
  | destroyContents m =>
      obtain ⟨-, b, -, rfl⟩ := mem_ahead_destroyContents.mp h
      simp at hn
  | _ => cases h

/-! ### The names after a task -/

lemma mem_opened_after {task : Task S} {a : Name} :
    a ∈ (p.after task).opened ↔ task = .destroy a ∨ a ∈ p.opened := by
  cases task <;> simp [after, eq_comm]

lemma mem_emptied_after {task : Task S} {a : Name} :
    a ∈ (p.after task).emptied ↔ task = .destroyContents a ∨ a ∈ p.emptied := by
  cases task <;> simp [after, eq_comm]

lemma mem_forgotten_after {task : Task S} {a : Name} :
    a ∈ (p.after task).forgotten ↔ task = .forget a ∨ a ∈ p.forgotten := by
  cases task <;> simp [after, eq_comm]

end Progress

/-- What every task keeps along the progress of a destruction and of its registry holds at its end.
The list that goes along holds what is seen of the lines so far. -/
theorem Clears.progress_registry {γ : Type} {view : Entry S → Option γ} {r : S.Index}
    {g h : Registry S} {roots : List Name} {lines : List (Entry S)}
    (hc : Clears r g (roots.map Task.destroy) lines h)
    (Inv : Progress → Registry S → List (Task S) → List γ → Prop)
    (hstart : Inv {} g (roots.map Task.destroy) [])
    (hstep : ∀ p h task rest log, task.subject.isSome → p.Describes g h →
      Inv p h (task :: rest) log →
      Inv (p.after task) (h.perform task).registry ((h.perform task).answer ++ rest)
        (log ++ (h.taskLines r task).filterMap view)) :
    ∃ p : Progress, p.Describes g h ∧ Inv p h [] (lines.filterMap view) := by
  let P : Registry S → List (Task S) → List (Entry S) → Prop := fun h tasks before =>
    ∃ p : Progress, p.Describes g h ∧ (∀ task ∈ tasks, task.subject.isSome) ∧
      Inv p h tasks (before.filterMap view)
  have htasks : ∀ task ∈ roots.map (Task.destroy (S := S)), task.subject.isSome := by
    intro task htask
    obtain ⟨n, -, rfl⟩ := List.mem_map.mp htask
    rfl
  have hP : P g (roots.map Task.destroy) [] := ⟨{}, Progress.Describes.start g, htasks, hstart⟩
  have hend : P h [] ([] ++ lines) := by
    refine hc.preserves (fun h task rest before ⟨p, hd, hsub, hI⟩ => ?_) hP
    have htask := hsub task List.mem_cons_self
    obtain ⟨name, hname⟩ := Option.isSome_iff_exists.mp htask
    refine ⟨p.after task, hd.perform hname, ?_, ?_⟩
    · intro other hother
      rw [hd.answer_perform hname] at hother
      rcases List.mem_append.mp hother with ho | ho
      · obtain ⟨-, b, -, hb, -⟩ := Progress.subject_of_mem_ahead ho
        exact Option.isSome_iff_exists.mpr ⟨b, hb⟩
      · exact hsub other (List.mem_cons_of_mem _ ho)
    · rw [List.filterMap_append]
      exact hstep p h task rest _ htask hd hI
  obtain ⟨p, hd, -, hI⟩ := hend
  exact ⟨p, hd, hI⟩

/-- The same without the registry, and with the tasks read off the progress. -/
theorem Clears.progress_seen {γ : Type} {view : Entry S → Option γ} {r : S.Index}
    {g h : Registry S} {roots : List Name} {lines : List (Entry S)}
    (hc : Clears r g (roots.map Task.destroy) lines h)
    (Inv : Progress → List (Task S) → List γ → Prop)
    (hstart : Inv {} (roots.map Task.destroy) [])
    (hstep : ∀ p h task rest log, p.Describes g h → Inv p (task :: rest) log →
      Inv (p.after task) (p.ahead g task ++ rest) (log ++ (h.taskLines r task).filterMap view)) :
    ∃ p : Progress, p.Describes g h ∧ Inv p [] (lines.filterMap view) := by
  refine hc.progress_registry (fun p _ tasks log => Inv p tasks log) hstart ?_
  intro p h task rest log htask hd hI
  obtain ⟨name, hname⟩ := Option.isSome_iff_exists.mp htask
  rw [hd.answer_perform hname]
  exact hstep p h task rest log hd hI

/-- The same with the names whose disposers have run. -/
theorem Clears.progress {r : S.Index} {g h : Registry S} {roots : List Name}
    {lines : List (Entry S)} (hc : Clears r g (roots.map Task.destroy) lines h)
    (Inv : Progress → List (Task S) → List Name → Prop)
    (hstart : Inv {} (roots.map Task.destroy) [])
    (hstep : ∀ p task rest log, Inv p (task :: rest) log →
      Inv (p.after task) (p.ahead g task ++ rest) (log ++ task.disposed.toList)) :
    ∃ p : Progress, p.Describes g h ∧ Inv p [] (lines.filterMap (Entry.disposal? r)) := by
  refine hc.progress_seen Inv hstart fun p h task rest log _ hI => ?_
  rw [Registry.filterMap_disposal?_taskLines]
  exact hstep p task rest log hI

end InstanceRegistry
