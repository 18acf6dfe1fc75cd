import InstanceRegistry.Proofs.Teardown.Progress

/-!
Which disposers a destruction runs. A name takes along what depends on it and what it contains, and
a destruction reaches whatever is taken along, directly or by way of other names.

* `Registry.TakesAlong`: the names to which the destruction of a name goes on;
* `Covers`: in the middle of a destruction, everything that is still to be reached is a task;
* `Clears.disposals`: the disposers that run are those of the names that are reached, each once.
-/

namespace InstanceRegistry

variable {S : Setup}

open Relation (ReflTransGen)

/-- The destruction of the name `a` goes on to `b`. -/
def Registry.TakesAlong (g : Registry S) (a b : Name) : Prop :=
  b ∈ g.dependentsOf a ∨ b ∈ g.containedIn a

/-- The names whose disposers have run, and those whose disposers are about to. -/
def disposersDue (tasks : List (Task S)) (log : List Name) : List Name :=
  log ++ tasks.filterMap Task.disposed

/-- A task brings in the disposers that it puts first, and takes none away. -/
lemma disposersDue_step (g : Registry S) (p : Progress) (task : Task S) (rest : List (Task S))
    (log : List Name) :
    (disposersDue (p.ahead g task ++ rest) (log ++ task.disposed.toList)).Perm
      ((p.ahead g task).filterMap Task.disposed ++ disposersDue (task :: rest) log) := by
  have hcons : (task :: rest).filterMap Task.disposed =
      task.disposed.toList ++ rest.filterMap Task.disposed := by
    rw [List.filterMap_cons]
    cases task.disposed <;> rfl
  rw [disposersDue, disposersDue, hcons, List.filterMap_append, ← List.append_assoc,
    ← List.append_assoc, ← List.append_assoc]
  refine List.Perm.append_right _ ?_
  rw [List.append_assoc (_ : List Name) log]
  exact List.perm_append_comm

/-- The disposers that a task puts first are at most its own. -/
lemma nodup_disposed_ahead (g : Registry S) (p : Progress) (task : Task S) :
    ((p.ahead g task).filterMap Task.disposed).Nodup := by
  have hnone : ∀ names : List Name,
      (names.map (Task.destroy (S := S))).filterMap Task.disposed = [] := by
    intro names
    rw [List.filterMap_map]
    exact List.filterMap_eq_nil_iff.mpr fun _ _ => rfl
  cases task with
  | destroy n =>
      by_cases hn : n ∈ p.opened
      · simp [Progress.ahead, hn, Task.disposed, List.filterMap_cons]
      · cases hd : g.disposers.get? n <;>
          simp [Progress.ahead, hn, Progress.opening, hd, hnone, Task.disposed,
            List.filterMap_cons]
  | destroyContents n =>
      by_cases hn : n ∈ p.emptied <;> simp [Progress.ahead, hn, hnone]
  | _ => exact List.nodup_nil

lemma mem_disposed_ahead {g : Registry S} {p : Progress} {task : Task S} {a : Name} :
    a ∈ (p.ahead g task).filterMap Task.disposed ↔
      task = .destroy a ∧ a ∉ p.opened ∧ (g.disposers.get? a).isSome := by
  rw [List.mem_filterMap]
  constructor
  · rintro ⟨other, hother, ha⟩
    obtain ⟨rfl, hopened⟩ := Progress.disposed_of_mem_ahead hother ha
    refine ⟨rfl, hopened, ?_⟩
    rcases Progress.mem_ahead_destroy.mp hother with ⟨-, ⟨b, -, -, rfl⟩ | ⟨d, hd, -⟩⟩ | rfl | rfl
    · cases ha
    · exact Option.isSome_iff_exists.mpr ⟨d, hd⟩
    · cases ha
    · cases ha
  · rintro ⟨rfl, hopened, hsome⟩
    obtain ⟨d, hd⟩ := Option.isSome_iff_exists.mp hsome
    exact ⟨.dispose a d,
      Progress.mem_ahead_destroy.mpr (Or.inl ⟨hopened, Or.inr ⟨d, hd, rfl⟩⟩), rfl⟩

/-- In the middle of the destruction of the roots, nothing outside of what they take along has been
touched, and what has not been opened yet is the task of somebody. -/
structure Covers (g : Registry S) (roots : List Name) (p : Progress) (tasks : List (Task S))
    (log : List Name) : Prop where
  /-- A task is about a name that is reached. -/
  task : ∀ task ∈ tasks, ∀ a, task.subject = some a → ∃ n ∈ roots, ReflTransGen g.TakesAlong n a
  /-- An opened name is reached. -/
  opened : ∀ a ∈ p.opened, ∃ n ∈ roots, ReflTransGen g.TakesAlong n a
  root : ∀ n ∈ roots, n ∈ p.opened ∨ .destroy n ∈ tasks
  dependent : ∀ a ∈ p.opened, ∀ b ∈ g.dependentsOf a, b ∈ p.opened ∨ .destroy b ∈ tasks
  contents : ∀ a ∈ p.opened, a ∈ p.emptied ∨ .destroyContents a ∈ tasks
  content : ∀ a ∈ p.emptied, ∀ b ∈ g.containedIn a, b ∈ p.opened ∨ .destroy b ∈ tasks
  late : ∀ a, .forget a ∈ tasks → a ∈ p.opened
  forgotten : ∀ a ∈ p.forgotten, a ∈ p.opened
  /-- The disposers of the opened names, and no others, have run or are about to. -/
  due : ∀ a, a ∈ disposersDue tasks log ↔ a ∈ p.opened ∧ (g.disposers.get? a).isSome
  once : (disposersDue tasks log).Nodup

namespace Covers

variable {g : Registry S} {roots : List Name} {p : Progress} {tasks : List (Task S)}
  {log : List Name}

lemma start (g : Registry S) (roots : List Name) :
    Covers g roots {} (roots.map Task.destroy) [] := by
  have hdue : disposersDue (roots.map (Task.destroy (S := S))) [] = [] := by
    rw [disposersDue, List.nil_append, List.filterMap_map]
    exact List.filterMap_eq_nil_iff.mpr fun _ _ => rfl
  constructor
  case task =>
    intro task htask a ha
    obtain ⟨n, hn, rfl⟩ := List.mem_map.mp htask
    obtain rfl : n = a := Option.some.inj ha
    exact ⟨n, hn, ReflTransGen.refl⟩
  case root => exact fun n hn => Or.inr (List.mem_map_of_mem hn)
  case late => simp
  case due => simp [hdue]
  case once => simp [hdue]
  all_goals simp

/-- What is left to be opened is opened by the task or stays a task. -/
lemma opened_or_task {task : Task S} {rest ahead : List (Task S)} {b : Name}
    (h : b ∈ p.opened ∨ .destroy b ∈ task :: rest) :
    b ∈ (p.after task).opened ∨ .destroy b ∈ ahead ++ rest := by
  rw [Progress.mem_opened_after, List.mem_append]
  rcases h with h | h
  · exact Or.inl (Or.inr h)
  · rcases List.mem_cons.mp h with h | h
    · exact Or.inl (Or.inl h.symm)
    · exact Or.inr (Or.inr h)

/-- The names that are reached stay those that the roots take along. -/
lemma reached_of_mem (hc : Covers g roots p tasks log) {task : Task S} (htask : task ∈ tasks)
    {other : Task S} (hother : other ∈ p.ahead g task) {b : Name} (hb : other.subject = some b) :
    ∃ n ∈ roots, ReflTransGen g.TakesAlong n b := by
  obtain ⟨a, c, ha, hc', hstep⟩ := Progress.subject_of_mem_ahead hother
  obtain rfl : c = b := Option.some.inj (hc'.symm.trans hb)
  obtain ⟨n, hn, hreach⟩ := hc.task task htask a ha
  rcases hstep with rfl | hstep
  · exact ⟨n, hn, hreach⟩
  · exact ⟨n, hn, hreach.tail hstep⟩

lemma step {task : Task S} {rest : List (Task S)} (hc : Covers g roots p (task :: rest) log) :
    Covers g roots (p.after task) (p.ahead g task ++ rest) (log ++ task.disposed.toList) where
  task other hother b hb := by
    rcases List.mem_append.mp hother with h | h
    · exact hc.reached_of_mem List.mem_cons_self h hb
    · exact hc.task other (List.mem_cons_of_mem _ h) b hb
  opened a ha := by
    rcases Progress.mem_opened_after.mp ha with rfl | ha
    · exact hc.task _ List.mem_cons_self a rfl
    · exact hc.opened a ha
  root n hn := opened_or_task (hc.root n hn)
  dependent a ha b hb := by
    by_cases ha' : a ∈ p.opened
    · exact opened_or_task (hc.dependent a ha' b hb)
    · obtain rfl := (Progress.mem_opened_after.mp ha).resolve_right ha'
      by_cases hf : b ∈ p.forgotten
      · exact Or.inl (Progress.mem_opened_after.mpr (Or.inr (hc.forgotten b hf)))
      · exact Or.inr (List.mem_append_left _
          (Progress.mem_ahead_destroy.mpr (Or.inl ⟨ha', Or.inl ⟨b, hb, hf, rfl⟩⟩)))
  contents a ha := by
    rw [Progress.mem_emptied_after, List.mem_append]
    rcases Progress.mem_opened_after.mp ha with rfl | ha
    · exact Or.inr (Or.inl (Progress.mem_ahead_destroy.mpr (Or.inr (Or.inl rfl))))
    · rcases hc.contents a ha with h | h
      · exact Or.inl (Or.inr h)
      · rcases List.mem_cons.mp h with h | h
        · exact Or.inl (Or.inl h.symm)
        · exact Or.inr (Or.inr h)
  content a ha b hb := by
    by_cases ha' : a ∈ p.emptied
    · exact opened_or_task (hc.content a ha' b hb)
    · obtain rfl := (Progress.mem_emptied_after.mp ha).resolve_right ha'
      exact Or.inr (List.mem_append_left _
        (Progress.mem_ahead_destroyContents.mpr ⟨ha', b, hb, rfl⟩))
  late a ha := by
    rw [Progress.mem_opened_after]
    refine (List.mem_append.mp ha).imp (fun h => ?_) fun h => ?_
    · exact Progress.eq_destroy_of_mem_ahead h (Or.inr rfl)
    · exact hc.late a (List.mem_cons_of_mem _ h)
  forgotten a ha := by
    rw [Progress.mem_opened_after]
    rcases Progress.mem_forgotten_after.mp ha with rfl | ha
    · exact Or.inr (hc.late a List.mem_cons_self)
    · exact Or.inr (hc.forgotten a ha)
  due a := by
    rw [(disposersDue_step g p task rest log).mem_iff, List.mem_append, mem_disposed_ahead,
      hc.due, Progress.mem_opened_after]
    tauto
  once := by
    rw [(disposersDue_step g p task rest log).nodup_iff]
    refine (nodup_disposed_ahead g p task).append hc.once ?_
    intro a ha hdue
    exact (mem_disposed_ahead.mp ha).2.1 ((hc.due a).mp hdue).1

lemma opened_of_disposed (hc : Covers g roots p tasks log) {task : Task S} (htask : task ∈ tasks)
    {a : Name} (ha : task.disposed = some a) : a ∈ p.opened := by
  have hdue : a ∈ disposersDue tasks log :=
    List.mem_append_right _ (List.mem_filterMap.mpr ⟨task, htask, ha⟩)
  exact ((hc.due a).mp hdue).1

/-- At the end, what the roots take along has been opened. -/
lemma mem_opened_of_reached (hc : Covers g roots p [] log) {n a : Name} (hn : n ∈ roots)
    (h : ReflTransGen g.TakesAlong n a) : a ∈ p.opened := by
  induction h with
  | refl => exact (hc.root n hn).resolve_right List.not_mem_nil
  | tail _ hstep ih =>
      rcases hstep with hdep | hcont
      · exact (hc.dependent _ ih _ hdep).resolve_right List.not_mem_nil
      · have hemptied := (hc.contents _ ih).resolve_right List.not_mem_nil
        exact (hc.content _ hemptied _ hcont).resolve_right List.not_mem_nil

/-- At the end, what the roots take along has been opened, and nothing else. -/
lemma mem_opened_iff (hc : Covers g roots p [] log) {a : Name} :
    a ∈ p.opened ↔ ∃ n ∈ roots, ReflTransGen g.TakesAlong n a :=
  ⟨hc.opened a, fun ⟨_, hn, hreach⟩ => hc.mem_opened_of_reached hn hreach⟩

end Covers

/-- **A destruction runs the disposers of what its roots take along**, each once, and no other. -/
theorem Clears.disposals {r : S.Index} {g h : Registry S} {roots : List Name}
    {lines : List (Entry S)} (hc : Clears r g (roots.map Task.destroy) lines h) :
    (lines.filterMap (Entry.disposal? r)).Nodup ∧
      ∀ a, a ∈ lines.filterMap (Entry.disposal? r) ↔
        (∃ n ∈ roots, ReflTransGen g.TakesAlong n a) ∧ (g.disposers.get? a).isSome := by
  obtain ⟨p, -, hI⟩ := hc.progress (Covers g roots) (Covers.start g roots)
    fun p task rest log hI => hI.step
  have hdue : disposersDue ([] : List (Task S)) (lines.filterMap (Entry.disposal? r)) =
      lines.filterMap (Entry.disposal? r) := List.append_nil _
  refine ⟨hdue ▸ hI.once, fun a => ?_⟩
  have ha := hI.due a
  rw [hdue] at ha
  rw [ha, hI.mem_opened_iff]

end InstanceRegistry
