import InstanceRegistry.Proofs.Teardown.Reach

/-!
How often the destruction of a name reports a name, and when. A destruction comes to a name once as
its root, once for each container that it empties, and once for each name whose dependents it
destroys first; every time it reports the name. The last report comes after the disposer of the
name.

* `Milestone`, `Entry.milestone?`: what the journal tells of the destruction of names;
* `Tally`: how often names are reported, and how often they are to be;
* `Phase`: where the disposer of a name is among the tasks, and the reports of the name around it;
* `ReportedOnce`, `Registry.ways`: a name that is reported once, and the ways by which a destruction
  may come to it;
* `destroy_reports`: the reports of a destruction;
* `held`: a container with one name in it, whose destruction reports that name twice.
-/

namespace InstanceRegistry

variable {S : Setup}

open Relation (ReflTransGen)
open scoped Finset

/-! ### Milestones -/

/-- A point in the destruction of a name that the journal tells of. -/
inductive Milestone where
  /-- The dependents of the name are destroyed first. -/
  | dependents (name : Name) (names : List Name)
  /-- The disposer of the name starts. -/
  | disposer (name : Name)
  /-- The destruction of the name is reported. -/
  | destroyed (name : Name)
  deriving DecidableEq

/-- The milestone that a line of the journal of the registry tells of. -/
def Entry.milestone? (r : S.Index) : Entry S → Option Milestone
  | .notice s (.dependentsFirst name names) => if s = r then some (.dependents name names) else none
  | .started s name (.disposal _) => if s = r then some (.disposer name) else none
  | .event s (.destroyed name) => if s = r then some (.destroyed name) else none
  | _ => none

/-- The destruction goes on to the name, as to one that depends on another. -/
def Milestone.calls (m : Name) : Milestone → Bool
  | dependents _ names => m ∈ names
  | _ => false

/-- The milestones of a task. -/
def Registry.milestones (h : Registry S) : Task S → List Milestone
  | .destroy a => if h.hasDependents a then [.dependents a (h.dependentsOf a)] else []
  | .dispose a _ => [.disposer a]
  | .forget a => [.destroyed a]
  | _ => []

lemma Registry.filterMap_milestone?_taskLines (h : Registry S) (r : S.Index) (task : Task S) :
    (h.taskLines r task).filterMap (Entry.milestone? r) = h.milestones task := by
  cases task with
  | destroy a =>
      by_cases ha : h.hasDependents a <;>
        simp [taskLines, Change.lines, perform, beginDestroy, milestones, Entry.milestone?, ha]
  | dispose a disposer => simp [taskLines, milestones, Entry.milestone?]
  | forget a =>
      simp [taskLines, Change.lines, perform, forget, milestones, Entry.milestone?]
  | _ => rfl

lemma Registry.destroyed_mem_milestones {h : Registry S} {task : Task S} {m : Name} :
    .destroyed m ∈ h.milestones task ↔ task = .forget m := by
  cases task with
  | destroy a =>
      simp only [milestones]
      split <;> simp
  | forget a => simp [milestones, eq_comm]
  | _ => simp [milestones]

/-- The destruction goes on to each name among the dependents once. -/
lemma Registry.countP_calls_milestones (h : Registry S) (a m : Name) :
    (h.milestones (.destroy a)).countP (Milestone.calls m) = (h.dependentsOf a).count m := by
  have hnodup : (h.dependentsOf a).Nodup := h.relations.dependents.nodup_successors a
  by_cases ha : h.hasDependents a
  · rw [hnodup.count]
    by_cases hm : m ∈ h.dependentsOf a <;> simp [milestones, ha, Milestone.calls, hm]
  · have hnone : h.dependentsOf a = [] := by
      by_contra hne
      exact ha (decide_eq_true (NameGraph.mem_of_successors_ne_nil hne))
    simp [milestones, ha, hnone]

/-! ### How often a name is reported -/

namespace Task

/-- The task begins the destruction of the name. -/
def begins (m : Name) : Task S → Bool
  | destroy name => name = m
  | _ => false

/-- The task ends the destruction of the name. -/
def ends (m : Name) : Task S → Bool
  | forget name => name = m
  | _ => false

lemma countP_begins_destroy (m : Name) (names : List Name) :
    (names.map (destroy : Name → Task S)).countP (begins m) = names.count m := by
  rw [List.countP_map]
  exact List.countP_congr fun name _ => by simp [begins]

lemma countP_ends_destroy (m : Name) (names : List Name) :
    (names.map (destroy : Name → Task S)).countP (ends m) = 0 := by
  rw [List.countP_map]
  exact congrFun List.countP_false names

end Task

/-- The names among the first ones with a property, one more or the same. -/
lemma card_filter_toFinset_cons (a : Name) (names : List Name) (q : Name → Prop)
    [DecidablePred q] :
    #{b ∈ (a :: names).toFinset | q b} =
      #{b ∈ names.toFinset | q b} + if a ∉ names ∧ q a then 1 else 0 := by
  rw [List.toFinset_cons]
  by_cases ha : a ∈ names
  · rw [Finset.insert_eq_of_mem (List.mem_toFinset.mpr ha), if_neg (fun h => h.1 ha), add_zero]
  · have hnot : a ∉ names.toFinset := fun h => ha (List.mem_toFinset.mp h)
    by_cases hq : q a
    · rw [Finset.filter_insert, if_pos hq, if_pos ⟨ha, hq⟩, Finset.card_insert_of_notMem]
      exact fun h => hnot (Finset.mem_of_mem_filter _ h)
    · rw [Finset.filter_insert, if_neg hq, if_neg (fun h => hq h.2), add_zero]

namespace Progress.Describes

variable {g h : Registry S} {p : Progress}

lemma ahead_destroy (hd : p.Describes g h) (a : Name) : p.ahead g (.destroy a) =
    (h.dependentsOf a).map Task.destroy ++ (h.disposers.get? a).toList.map (Task.dispose a) ++
      [.destroyContents a, .forget a] :=
  (hd.answer_perform rfl).symm

/-- The destruction of a name goes on to its dependents. -/
lemma countP_begins_ahead (hd : p.Describes g h) (a m : Name) :
    (p.ahead g (.destroy a)).countP (Task.begins m) = (h.dependentsOf a).count m := by
  rw [hd.ahead_destroy, List.countP_append, List.countP_append, Task.countP_begins_destroy]
  cases h.disposers.get? a <;> simp [Task.begins]

/-- The destruction of a name ends once. -/
lemma countP_ends_ahead (hd : p.Describes g h) (a m : Name) :
    (p.ahead g (.destroy a)).countP (Task.ends m) = if a = m then 1 else 0 := by
  rw [hd.ahead_destroy, List.countP_append, List.countP_append, Task.countP_ends_destroy]
  cases h.disposers.get? a <;> simp [Task.ends, List.countP_cons]

/-- A dependent is gone on to once at most, when its name is opened. -/
lemma count_dependentsOf_le (hd : p.Describes g h) (a m : Name) :
    (h.dependentsOf a).count m ≤ if a ∉ p.opened ∧ m ∈ g.dependentsOf a then 1 else 0 := by
  have hnodup : (h.dependentsOf a).Nodup := h.relations.dependents.nodup_successors a
  rw [hnodup.count, hd.dependents]
  by_cases ha : a ∈ p.opened
  · simp [ha]
  · simp only [ha, if_false, List.mem_filter, not_false_eq_true, true_and]
    split_ifs with h₁ h₂
    · exact le_rfl
    · exact absurd h₁.1 h₂
    · exact Nat.zero_le 1
    · exact le_rfl

end Progress.Describes

/-- In the middle of the destruction of the roots, every name that has been begun is reported or is
to be, and every name is begun or is to be once for each time that the destruction goes on to it. -/
structure Tally (g : Registry S) (roots : List Name) (p : Progress) (tasks : List (Task S))
    (log : List Milestone) : Prop where
  ends : ∀ m, log.count (.destroyed m) + tasks.countP (Task.ends m) = p.opened.count m
  begins : ∀ m, p.opened.count m + tasks.countP (Task.begins m) =
    roots.count m + log.countP (Milestone.calls m) + #{a ∈ p.emptied.toFinset | m ∈ g.containedIn a}
  calls : ∀ m, log.countP (Milestone.calls m) ≤ #{a ∈ p.opened.toFinset | m ∈ g.dependentsOf a}
  contents : ∀ a, .destroyContents a ∈ tasks → a ∈ p.opened
  emptied : ∀ a ∈ p.emptied, a ∈ p.opened

namespace Tally

variable {g h : Registry S} {roots : List Name} {p : Progress} {tasks rest : List (Task S)}
  {log : List Milestone} {a : Name}

lemma start (g : Registry S) (roots : List Name) :
    Tally g roots {} (roots.map Task.destroy) [] where
  ends m := by rw [Task.countP_ends_destroy]; rfl
  begins m := by rw [Task.countP_begins_destroy]; simp
  calls m := by simp
  contents a ha := by simp at ha
  emptied a ha := by simp at ha

/-- A name is opened, and what it goes on to is to be begun. -/
lemma destroy (ht : Tally g roots p (.destroy a :: rest) log) (hd : p.Describes g h) :
    Tally g roots (p.after (.destroy a : Task S)) (p.ahead g (.destroy a) ++ rest)
      (log ++ h.milestones (.destroy a)) := by
  have hcalls := h.countP_calls_milestones a
  constructor
  case ends =>
    intro m
    have hnone : (h.milestones (.destroy a)).count (.destroyed m) = 0 :=
      List.count_eq_zero.mpr fun hm => nomatch Registry.destroyed_mem_milestones.mp hm
    have hbefore := ht.ends m
    simp only [List.countP_cons, Task.ends, Bool.false_eq_true, if_false] at hbefore
    rw [List.count_append, hnone, List.countP_append, hd.countP_ends_ahead]
    simp only [Progress.after, List.count_cons, beq_iff_eq]
    omega
  case begins =>
    intro m
    have hbefore := ht.begins m
    simp only [List.countP_cons, Task.begins, decide_eq_true_eq] at hbefore
    rw [List.countP_append, List.countP_append, hcalls, hd.countP_begins_ahead]
    simp only [Progress.after, List.count_cons, beq_iff_eq]
    omega
  case calls =>
    intro m
    have hbefore := ht.calls m
    have hle := hd.count_dependentsOf_le a m
    rw [List.countP_append, hcalls]
    simp only [Progress.after, card_filter_toFinset_cons]
    omega
  case contents =>
    intro b hb
    rw [Progress.mem_opened_after]
    rcases List.mem_append.mp hb with hb | hb
    · rcases Progress.mem_ahead_destroy.mp hb with ⟨-, ⟨c, -, -, hc⟩ | ⟨d, -, hc⟩⟩ | hc | hc
      all_goals cases hc
      exact Or.inl rfl
    · exact Or.inr (ht.contents b (List.mem_cons_of_mem _ hb))
  case emptied => exact fun b hb => Progress.mem_opened_after.mpr (Or.inr (ht.emptied b hb))

/-- A name is emptied, and what it contains is to be begun. -/
lemma destroyContents (ht : Tally g roots p (.destroyContents a :: rest) log) :
    Tally g roots (p.after (.destroyContents a : Task S))
      (p.ahead g (.destroyContents a) ++ rest) log := by
  let names : List Name := if a ∈ p.emptied then [] else g.containedIn a
  have hahead : p.ahead g (.destroyContents a) = names.map Task.destroy := by
    simp only [Progress.ahead, names]
    split <;> rfl
  constructor
  case ends =>
    intro m
    have hbefore := ht.ends m
    simp only [List.countP_cons, Task.ends, Bool.false_eq_true, if_false] at hbefore
    rw [List.countP_append, hahead, Task.countP_ends_destroy, Nat.zero_add]
    exact hbefore
  case begins =>
    intro m
    have hbefore := ht.begins m
    simp only [List.countP_cons, Task.begins, Bool.false_eq_true, if_false] at hbefore
    have hcount : names.count m = if a ∉ p.emptied ∧ m ∈ g.containedIn a then 1 else 0 := by
      have hnodup : (g.containedIn a).Nodup := g.relations.contents.nodup_successors a
      by_cases hemptied : a ∈ p.emptied
      · simp [names, hemptied]
      · simp only [names, if_neg hemptied, hnodup.count, hemptied, not_false_eq_true, true_and]
    rw [List.countP_append, hahead, Task.countP_begins_destroy, hcount]
    simp only [Progress.after, card_filter_toFinset_cons]
    omega
  case calls => exact ht.calls
  case contents =>
    intro b hb
    rcases List.mem_append.mp hb with hb | hb
    · rw [hahead] at hb
      obtain ⟨_, -, hb⟩ := List.mem_map.mp hb
      cases hb
    · exact ht.contents b (List.mem_cons_of_mem _ hb)
  case emptied =>
    intro b hb
    rcases List.mem_cons.mp hb with rfl | hb
    · exact ht.contents b List.mem_cons_self
    · exact ht.emptied b hb

/-- A name is forgotten, and reported. -/
lemma forget (ht : Tally g roots p (.forget a :: rest) log) :
    Tally g roots (p.after (.forget a : Task S)) rest (log ++ [.destroyed a]) where
  ends m := by
    have hbefore := ht.ends m
    simp only [List.countP_cons, Task.ends, decide_eq_true_eq] at hbefore
    simp only [Progress.after, List.count_append, List.count_cons, List.count_nil, beq_iff_eq,
      Milestone.destroyed.injEq]
    omega
  begins m := by
    have hbefore := ht.begins m
    simp only [List.countP_cons, Task.begins, Bool.false_eq_true, if_false] at hbefore
    rw [List.countP_append]
    exact hbefore
  calls m := by
    rw [List.countP_append]
    exact ht.calls m
  contents b hb := ht.contents b (List.mem_cons_of_mem _ hb)
  emptied := ht.emptied

/-- A task that neither begins nor ends the destruction of a name. -/
lemma pass {task : Task S} {more : List Milestone} (ht : Tally g roots p (task :: rest) log)
    (hends : ∀ m, task.ends m = false) (hbegins : ∀ m, task.begins m = false)
    (hmore : ∀ e ∈ more, ∃ m, e = .disposer m) : Tally g roots p rest (log ++ more) where
  ends m := by
    have hnone : more.count (.destroyed m) = 0 := List.count_eq_zero.mpr fun hm => by
      obtain ⟨_, he⟩ := hmore _ hm
      cases he
    have hbefore := ht.ends m
    simp only [List.countP_cons, hends, Bool.false_eq_true, if_false] at hbefore
    rw [List.count_append, hnone]
    exact hbefore
  begins m := by
    have hnone : more.countP (Milestone.calls m) = 0 := List.countP_eq_zero.mpr fun e he => by
      obtain ⟨_, rfl⟩ := hmore e he
      exact Bool.false_ne_true
    have hbefore := ht.begins m
    simp only [List.countP_cons, hbegins, Bool.false_eq_true, if_false] at hbefore
    rw [List.countP_append, hnone]
    exact hbefore
  calls m := by
    have hnone : more.countP (Milestone.calls m) = 0 := List.countP_eq_zero.mpr fun e he => by
      obtain ⟨_, rfl⟩ := hmore e he
      exact Bool.false_ne_true
    rw [List.countP_append, hnone]
    exact ht.calls m
  contents b hb := ht.contents b (List.mem_cons_of_mem _ hb)
  emptied := ht.emptied

lemma step {task : Task S} (ht : Tally g roots p (task :: rest) log) (hd : p.Describes g h) :
    Tally g roots (p.after task) (p.ahead g task ++ rest) (log ++ h.milestones task) := by
  cases task with
  | destroy a => exact ht.destroy hd
  | destroyContents a =>
      rw [show h.milestones (.destroyContents a) = [] from rfl, List.append_nil]
      exact ht.destroyContents
  | forget a => exact ht.forget
  | dispose a disposer =>
      exact ht.pass (fun _ => rfl) (fun _ => rfl) fun e he => ⟨a, List.mem_singleton.mp he⟩
  | destroyAll => exact ht.pass (fun _ => rfl) (fun _ => rfl) fun e he => nomatch he
  | reset => exact ht.pass (fun _ => rfl) (fun _ => rfl) fun e he => nomatch he

end Tally

/-! ### When a name is reported -/

/-- Where the disposer of the name is in the middle of a destruction. The name is not opened yet; or
its disposer is a task, after what the dependents of the name take along; or it has run, and the
name has been reported since or is still to be. -/
inductive Phase (g : Registry S) (m : Name) (p : Progress) (tasks : List (Task S))
    (log : List Milestone) : Prop
  | ahead (hopened : m ∉ p.opened) (hforget : .forget m ∉ tasks) (hlog : .destroyed m ∉ log)
  | waiting (pre post : List (Task S)) (d : S.Disposer) (hopened : m ∈ p.opened)
      (htasks : tasks = pre ++ .dispose m d :: post)
      (hdrawn : ∀ task ∈ pre, ∀ a, task.subject = some a → g.DrawsIn m a)
      (hforget : .forget m ∈ post) (hlog : ¬ g.DrawsIn m m → .destroyed m ∉ log)
  | done (before after : List Milestone) (hopened : m ∈ p.opened)
      (hlog : log = before ++ .disposer m :: after)
      (hreport : .forget m ∈ tasks ∨ .destroyed m ∈ after)
      (hbefore : ¬ g.DrawsIn m m → .destroyed m ∉ before)

section Phase

variable {g h : Registry S} {m : Name} {p : Progress} {task : Task S} {rest : List (Task S)}
  {log : List Milestone}

lemma destroyed_notMem_append_milestones (hne : task ≠ .forget m) (hlog : .destroyed m ∉ log) :
    .destroyed m ∉ log ++ h.milestones task := fun hmem =>
  (List.mem_append.mp hmem).elim hlog fun hnow => hne (Registry.destroyed_mem_milestones.mp hnow)

namespace Phase

/-- A task before the name is opened, or the one that opens it. -/
lemma step_ahead (hm : (g.disposers.get? m).isSome) (hopened : m ∉ p.opened)
    (hforget : .forget m ∉ task :: rest) (hlog : .destroyed m ∉ log) :
    Phase g m (p.after task) (p.ahead g task ++ rest) (log ++ h.milestones task) := by
  have hnone : .destroyed m ∉ log ++ h.milestones task :=
    destroyed_notMem_append_milestones (fun e => hforget (e ▸ List.mem_cons_self)) hlog
  by_cases htask : task = .destroy m
  · subst htask
    obtain ⟨d, hd⟩ := Option.isSome_iff_exists.mp hm
    refine .waiting (((g.dependentsOf m).filter (· ∉ p.forgotten)).map Task.destroy)
      (.destroyContents m :: .forget m :: rest) d (Progress.mem_opened_after.mpr (Or.inl rfl))
      ?_ ?_ ?_ fun _ => hnone
    · simp [Progress.ahead, hopened, Progress.opening, hd]
    · intro other hother a ha
      obtain ⟨x, hx, rfl⟩ := List.mem_map.mp hother
      obtain rfl : x = a := Option.some.inj ha
      exact ⟨x, List.mem_of_mem_filter hx, ReflTransGen.refl⟩
    · exact List.mem_cons_of_mem _ List.mem_cons_self
  · refine .ahead (fun h => ?_) (fun h => ?_) hnone
    · exact (Progress.mem_opened_after.mp h).elim htask hopened
    · rcases List.mem_append.mp h with h | h
      · exact htask (Progress.eq_destroy_of_mem_ahead h (Or.inr rfl))
      · exact hforget (List.mem_cons_of_mem _ h)

/-- A task before the disposer of the name, about what the dependents of the name take along. -/
lemma step_waiting {pre post : List (Task S)} {d : S.Disposer} (hopened : m ∈ p.opened)
    (hdrawn : ∀ other ∈ task :: pre, ∀ a, other.subject = some a → g.DrawsIn m a)
    (hforget : .forget m ∈ post) (hlog : ¬ g.DrawsIn m m → .destroyed m ∉ log) :
    Phase g m (p.after task) (p.ahead g task ++ (pre ++ .dispose m d :: post))
      (log ++ h.milestones task) := by
  refine .waiting (p.ahead g task ++ pre) post d (Progress.mem_opened_after.mpr (Or.inr hopened))
    (List.append_assoc ..).symm (fun other hother a ha => ?_) hforget fun hself => ?_
  · rcases List.mem_append.mp hother with hother | hother
    · obtain ⟨b, c, hb, hc, hstep⟩ := Progress.subject_of_mem_ahead hother
      obtain rfl : c = a := Option.some.inj (hc.symm.trans ha)
      obtain ⟨x, hx, hreach⟩ := hdrawn task List.mem_cons_self b hb
      rcases hstep with rfl | hstep
      · exact ⟨x, hx, hreach⟩
      · exact ⟨x, hx, hreach.tail hstep⟩
    · exact hdrawn other (List.mem_cons_of_mem _ hother) a ha
  · refine destroyed_notMem_append_milestones ?_ (hlog hself)
    rintro rfl
    exact hself (hdrawn _ List.mem_cons_self m rfl)

/-- A task after the disposer of the name. -/
lemma step_done {before after : List Milestone} (hopened : m ∈ p.opened)
    (hlog : log = before ++ .disposer m :: after)
    (hreport : .forget m ∈ task :: rest ∨ .destroyed m ∈ after)
    (hbefore : ¬ g.DrawsIn m m → .destroyed m ∉ before) :
    Phase g m (p.after task) (p.ahead g task ++ rest) (log ++ h.milestones task) := by
  refine .done before (after ++ h.milestones task) (Progress.mem_opened_after.mpr (Or.inr hopened))
    (by rw [hlog, List.append_assoc, List.cons_append]) ?_ hbefore
  rcases hreport with hforget | hreported
  · rcases List.mem_cons.mp hforget with rfl | hforget
    · exact Or.inr (List.mem_append_right _ List.mem_cons_self)
    · exact Or.inl (List.mem_append_right _ hforget)
  · exact Or.inr (List.mem_append_left _ hreported)

lemma step (hphase : Phase g m p (task :: rest) log) (hm : (g.disposers.get? m).isSome) :
    Phase g m (p.after task) (p.ahead g task ++ rest) (log ++ h.milestones task) := by
  cases hphase with
  | ahead hopened hforget hlog => exact step_ahead hm hopened hforget hlog
  | waiting pre post d hopened htasks hdrawn hforget hlog =>
      cases pre with
      | nil =>
          obtain ⟨rfl, rfl⟩ := List.cons.inj htasks
          exact .done log [] hopened rfl (Or.inl hforget) hlog
      | cons first pre =>
          obtain ⟨rfl, rfl⟩ := List.cons.inj htasks
          exact step_waiting hopened hdrawn hforget hlog
  | done before after hopened hlog hreport hbefore => exact step_done hopened hlog hreport hbefore

end Phase

end Phase

/-! ### The reports of a destruction -/

/-- The name whose disposer starts, as a milestone says. -/
def Milestone.disposed? : Milestone → Option Name
  | disposer name => some name
  | _ => none

lemma Registry.filterMap_disposed?_milestones (h : Registry S) (task : Task S) :
    (h.milestones task).filterMap Milestone.disposed? = task.disposed.toList := by
  cases task with
  | destroy a =>
      simp only [milestones]
      split <;> rfl
  | _ => rfl

/-- The ways by which a destruction of `n` may come to the name `m`: as to its root, as to a
dependent, and as to something contained. -/
def Registry.ways (g : Registry S) (closure : Finset Name) (n m : Name) : ℕ :=
  (if m = n then 1 else 0) + #{a ∈ closure | m ∈ g.dependentsOf a} +
    #{a ∈ closure | m ∈ g.containedIn a}

/-- The name is reported once, and not before its disposer, if it has one. -/
def ReportedOnce (g : Registry S) (m : Name) (log : List Milestone) : Prop :=
  log.count (.destroyed m) = 1 ∧ ((g.disposers.get? m).isSome →
    ∃ before after, log = before ++ .disposer m :: after ∧ .destroyed m ∉ before)

/-- The milestones of the destruction of `n`, which takes the names of the closure along. -/
structure Reported (g : Registry S) (n : Name) (closure : Finset Name) (log : List Milestone) :
    Prop where
  mem_iff : ∀ m, .destroyed m ∈ log ↔ m ∈ closure
  /-- A name is reported once as the root, once for each of its containers, and once for each list
  of dependents with the name. -/
  count : ∀ m, log.count (.destroyed m) = (if m = n then 1 else 0) +
    log.countP (Milestone.calls m) + #{a ∈ closure | m ∈ g.containedIn a}
  /-- The dependents of a name are listed once at most. -/
  calls : ∀ m, log.countP (Milestone.calls m) ≤ #{a ∈ closure | m ∈ g.dependentsOf a}
  /-- The last report comes after the disposer, and all of them do unless the dependents of the name
  take it along. -/
  late : ∀ m ∈ closure, (g.disposers.get? m).isSome → ∃ before after,
    log = before ++ .disposer m :: after ∧ .destroyed m ∈ after ∧
      (¬ g.DrawsIn m m → .destroyed m ∉ before)

/-- A name to which one way leads is reported once, and not before its disposer. -/
lemma Reported.reportedOnce {g : Registry S} {n m : Name} {closure : Finset Name}
    {log : List Milestone} (h : Reported g n closure log) (hm : m ∈ closure)
    (hways : g.ways closure n m = 1) : ReportedOnce g m log := by
  have honce : log.count (.destroyed m) = 1 := by
    have hpos : 0 < log.count (.destroyed m) := List.count_pos_iff.mpr ((h.mem_iff m).mpr hm)
    have hcount := h.count m
    have hcalls := h.calls m
    simp only [Registry.ways] at hways
    omega
  refine ⟨honce, fun hsome => ?_⟩
  obtain ⟨before, after, hsplit, hafter, -⟩ := h.late m hm hsome
  refine ⟨before, after, hsplit, fun hbefore => ?_⟩
  -- a report on both sides of the disposer would make two
  have htwo : 0 < before.count (.destroyed m) ∧ 0 < after.count (.destroyed m) :=
    ⟨List.count_pos_iff.mpr hbefore, List.count_pos_iff.mpr hafter⟩
  rw [hsplit, List.count_append, List.count_cons] at honce
  omega

/-- What the lines of a destruction tell of the names that it reaches. -/
theorem Clears.reported {r : S.Index} {g h : Registry S} {n : Name} {lines : List (Entry S)}
    (hc : Clears r g [.destroy n] lines h) :
    ∃ closure : Finset Name, (∀ m, m ∈ closure ↔ ReflTransGen g.TakesAlong n m) ∧
      Reported g n closure (lines.filterMap (Entry.milestone? r)) := by
  have hroots : Clears r g ([n].map Task.destroy) lines h := hc
  obtain ⟨p, -, hcovers, htally, hphase⟩ := hroots.progress_seen
    (fun p tasks log => Covers g [n] p tasks (log.filterMap Milestone.disposed?) ∧
      Tally g [n] p tasks log ∧ ∀ m, (g.disposers.get? m).isSome → Phase g m p tasks log)
    ⟨Covers.start g [n], Tally.start g [n],
      fun m _ => .ahead List.not_mem_nil (by simp) List.not_mem_nil⟩
    (fun p h task rest log hd ⟨hcovers, htally, hphase⟩ => by
      rw [Registry.filterMap_milestone?_taskLines]
      refine ⟨?_, htally.step hd, fun m hm => (hphase m hm).step hm⟩
      rw [List.filterMap_append, Registry.filterMap_disposed?_milestones]
      exact hcovers.step)
  have hmem : ∀ m, m ∈ p.opened.toFinset ↔ ReflTransGen g.TakesAlong n m := by
    intro m
    simp only [List.mem_toFinset, hcovers.mem_opened_iff, List.mem_singleton, exists_eq_left]
  have hemptied : p.emptied.toFinset = p.opened.toFinset := by
    ext a
    rw [List.mem_toFinset, List.mem_toFinset]
    exact ⟨htally.emptied a, fun ha => (hcovers.contents a ha).resolve_right List.not_mem_nil⟩
  have hends : ∀ m, (lines.filterMap (Entry.milestone? r)).count (.destroyed m) =
      p.opened.count m := htally.ends
  refine ⟨p.opened.toFinset, hmem, fun m => ?_, fun m => ?_, htally.calls, fun m hm hsome => ?_⟩
  · rw [List.mem_toFinset, ← List.count_pos_iff, hends, List.count_pos_iff]
  · have hroot : [n].count m = if m = n then 1 else 0 := by
      simp only [List.count_singleton, beq_iff_eq, eq_comm (a := n)]
    have hbegins := htally.begins m
    rw [List.countP_nil, Nat.add_zero, hroot, hemptied] at hbegins
    rw [hends, hbegins]
  · rw [List.mem_toFinset] at hm
    cases hphase m hsome with
    | ahead hopened _ _ => exact absurd hm hopened
    | waiting pre post d _ htasks _ _ _ => simp at htasks
    | done before after _ hlog hreport hbefore =>
        exact ⟨before, after, hlog, hreport.resolve_left List.not_mem_nil, hbefore⟩

/-- **How often a destruction reports a name, and when.** The destruction of a name ends, and it
reports the names of the least set with that name that is closed under dependents and contents, and
no others. The reports of a name are as many as the times that the destruction comes to it, and the
last one comes after its disposer. So a name to which one way leads is reported once, and not before
its disposer. -/
theorem destroy_reports {caller : Caller S} {r : S.Index} {w : World S}
    (hdisposers : ∀ d, KeepsOff caller r (Entry.milestone? r) (caller.disposer d))
    (hobserver : QuietlyObserved caller r (Entry.milestone? r) (w.registry r)) (n : Name) :
    ∃ (closure : Finset Name) (log : List Milestone) (w' : World S),
      IsLeast {s : Set Name | n ∈ s ∧ (w.registry r).Closed s} closure ∧
      Ends caller (Script.destroy r n) w () w' ∧
      w'.seen (Entry.milestone? r) = w.seen (Entry.milestone? r) ++ log ∧
      Reported (w.registry r) n closure log ∧
      ∀ m ∈ closure, (w.registry r).ways closure n m = 1 →
        ReportedOnce (w.registry r) m log := by
  have hs : SilentTeardown caller r (Entry.milestone? r) :=
    ⟨hdisposers, fun _ _ => rfl, fun _ _ => rfl⟩
  obtain ⟨lines, h, w', hc, hends, hw'⟩ := hs.exists_ends_destroy n hobserver
  obtain ⟨closure, hclosure, hreported⟩ := hc.reported
  have hcoe : (closure : Set Name) = {a | ReflTransGen (w.registry r).TakesAlong n a} :=
    Set.ext hclosure
  exact ⟨closure, _, w', hcoe ▸ (w.registry r).isLeast_takesAlong n, hends, hw'.seen, hreported,
    fun m hm hways => hreported.reportedOnce hm hways⟩

/-! ### A diamond and a container -/

section Small

/-- Two names depend on the inner one, and the outer one depends on both. -/
def diamond : Registry bare :=
  let g : Registry bare :=
    { disposers := (((NameMap.empty.insert "inner" ()).insert "left" ()).insert "right" ()).insert
        "outer" () }
  let g := (g.apply (.depend "left" "inner")).registry
  let g := (g.apply (.depend "right" "inner")).registry
  let g := (g.apply (.depend "outer" "left")).registry
  (g.apply (.depend "outer" "right")).registry

/-- The outer name contains the inner one. -/
def held : Registry bare := (bareNames.apply (.contain "outer" "inner")).registry

/-- What the destruction of the diamond tells. -/
def diamondLog : List Milestone :=
  [.dependents "inner" ["left", "right"], .dependents "left" ["outer"], .disposer "outer",
    .destroyed "outer", .disposer "left", .destroyed "left", .disposer "right", .destroyed "right",
    .disposer "inner", .destroyed "inner"]

/-- What the destruction of the inner name tells. -/
def heldLog : List Milestone :=
  [.dependents "inner" ["outer"], .disposer "outer", .destroyed "inner", .destroyed "outer",
    .disposer "inner", .destroyed "inner"]

/-- The inner name and those that depend on it are reported once each. Two ways lead to the outer
name, but only one list of dependents has it, since it is forgotten before the other one is made. -/
theorem destroy_reports_diamond :
    (∀ d, KeepsOff bareCaller bareIndex (Entry.milestone? bareIndex) (bareCaller.disposer d)) ∧
    QuietlyObserved bareCaller bareIndex (Entry.milestone? bareIndex) diamond ∧
    ∃ (closure : Finset Name) (w' : World bare),
      IsLeast {s : Set Name | "inner" ∈ s ∧ diamond.Closed s} closure ∧
      Ends bareCaller (Script.destroy bareIndex "inner") diamond.alone () w' ∧
      w'.seen (Entry.milestone? bareIndex) = diamondLog ∧
      diamond.ways closure "inner" "right" = 1 ∧ ReportedOnce diamond "right" diamondLog ∧
      diamond.ways closure "inner" "outer" = 2 ∧
      diamondLog.count (.destroyed "outer") = 1 := by
  have hdisposers : ∀ d : bare.Disposer, KeepsOff bareCaller bareIndex
      (Entry.milestone? bareIndex) (bareCaller.disposer d) := fun _ => keepsOff_done _
  have hobserver : QuietlyObserved bareCaller bareIndex (Entry.milestone? bareIndex) diamond :=
    fun o => o.elim
  obtain ⟨closure, log, w', hleast, hends, hseen, hreported, honce⟩ :=
    destroy_reports (w := diamond.alone) hdisposers hobserver "inner"
  have hrun : Ends bareCaller (Script.destroy bareIndex "inner") diamond.alone ()
      (run bareCaller 60 (Config.start (Script.destroy bareIndex "inner") diamond.alone)).world :=
    Ends.of_result? (by decide)
  have hdone : (run bareCaller 60 (Config.start (Script.destroy bareIndex "inner")
      diamond.alone)).world.seen (Entry.milestone? bareIndex) = diamondLog := by decide
  obtain rfl := (hrun.unique hends).2
  obtain rfl : log = diamondLog := hseen.symm.trans hdone
  obtain rfl : closure = {"inner", "left", "right", "outer"} := by
    ext m
    rw [← hreported.mem_iff]
    simp [diamondLog]
    tauto
  have hright : diamond.ways {"inner", "left", "right", "outer"} "inner" "right" = 1 := by decide
  exact ⟨hdisposers, hobserver, _, _, hleast, hrun, hdone, hright, honce "right" (by decide) hright,
    by decide, by decide⟩

/-- The dependent of the inner name contains it, so that the inner name is reported twice, and the
first time before its disposer. -/
theorem held_reported_twice :
    (∀ d, KeepsOff bareCaller bareIndex (Entry.milestone? bareIndex) (bareCaller.disposer d)) ∧
    QuietlyObserved bareCaller bareIndex (Entry.milestone? bareIndex) held ∧
    (∃ w', Ends bareCaller (Script.destroy bareIndex "inner") held.alone () w' ∧
      w'.seen (Entry.milestone? bareIndex) = heldLog) ∧
    ¬ ∃ w' log, Ends bareCaller (Script.destroy bareIndex "inner") held.alone () w' ∧
      w'.seen (Entry.milestone? bareIndex) =
        held.alone.seen (Entry.milestone? bareIndex) ++ log ∧
      ∀ m, (∀ s : Set Name, "inner" ∈ s → held.Closed s → m ∈ s) → ReportedOnce held m log := by
  have hends : Ends bareCaller (Script.destroy bareIndex "inner") held.alone ()
      (run bareCaller 40 (Config.start (Script.destroy bareIndex "inner") held.alone)).world :=
    Ends.of_result? (by decide)
  have hdone : (run bareCaller 40 (Config.start (Script.destroy bareIndex "inner")
      held.alone)).world.seen (Entry.milestone? bareIndex) = heldLog := by decide
  refine ⟨fun _ => keepsOff_done _, fun o => o.elim, ⟨_, hends, hdone⟩, ?_⟩
  rintro ⟨w', log, hends', hseen, honce⟩
  obtain rfl := (hends.unique hends').2
  obtain rfl : log = heldLog := hseen.symm.trans hdone
  have hinner : ReportedOnce held "inner" heldLog := honce "inner" fun s hs _ => hs
  exact absurd hinner.1 (by decide)

end Small

end InstanceRegistry
