import InstanceRegistry.Proofs.Run.Pending
import InstanceRegistry.Proofs.Teardown.Reach

/-!
What becomes of the disposers of a registry in a run. A disposer is registered, and then another one
is registered in its place, or a destruction takes it out and runs it, or it is there at the end.

* `NameMap.pairs`, `NameMap.pairAt`: the entries of a map, and the one of a name, as multisets;
* `Config.registered`, `Config.replaced`, `Config.disposals`: the disposers that a step registers,
  replaces and starts;
* `Config.awaiting`: the disposers that are taken out, to be run;
* `ledger_step`, `seen_disposing_step`: the balance of a step, and what is seen of it;
* `ledger_run`: the balance of a run.
-/

namespace InstanceRegistry

variable {S : Setup} {α β : Type} {caller : Caller S} {r s : S.Index}

/-! ### The entries of a map -/

namespace NameMap

variable {m : NameMap β} {name : Name} {value : β}

/-- The entries, in no order. -/
def pairs (m : NameMap β) : Multiset (Name × β) := m.entries

/-- The entry of a name, if there is one. -/
def pairAt (m : NameMap β) (name : Name) : Multiset (Name × β) :=
  ((m.get? name).toList.map (name, ·) : List (Name × β))

lemma filter_entries_eq (m : NameMap β) (name : Name) :
    m.entries.filter (fun entry => entry.1 = name) = (m.get? name).toList.map (name, ·) := by
  obtain ⟨entries, hnodup⟩ := m
  simp only [get?]
  induction entries with
  | nil => rfl
  | cons entry rest ih =>
      rw [List.map_cons, List.nodup_cons] at hnodup
      by_cases hname : entry.1 = name
      · subst hname
        have hrest : rest.filter (fun other => other.1 = entry.1) = [] := by
          refine List.filter_eq_nil_iff.mpr fun other hother => ?_
          rw [decide_eq_true_iff]
          intro hsame
          exact hnodup.1 (hsame ▸ List.mem_map_of_mem hother)
        simp [hrest]
      · simpa [hname] using ih hnodup.2

/-- An entry is dropped, or stays. -/
lemma pairs_erase (m : NameMap β) (name : Name) :
    (m.erase name).pairs + m.pairAt name = m.pairs := by
  rw [pairAt, ← filter_entries_eq]
  have hsplit := Multiset.filter_add_not (fun entry : Name × β => entry.1 = name) m.pairs
  rw [add_comm] at hsplit
  exact hsplit

/-- An entry takes the place of the one that the name had. -/
lemma pairs_insert (m : NameMap β) (name : Name) (value : β) :
    (m.insert name value).pairs + m.pairAt name = m.pairs + {(name, value)} := by
  have hnew : (m.insert name value).pairAt name = {(name, value)} := by
    simp [pairAt, get?_insert_self]
  rw [← pairs_erase (m.insert name value) name, erase_insert, hnew, ← pairs_erase m name]
  exact add_right_comm _ _ _

end NameMap

/-! ### Steps that concern disposers -/

/-- The name and the disposer that a task runs. -/
def Task.disposing? : Task S → Option (Name × S.Disposer)
  | .dispose name disposer => some (name, disposer)
  | _ => none

/-- Whatever is neither a task nor a registration leaves the disposers as they are. -/
lemma Moment.Moves.disposers_eq {m m' : Moment S} {deed : Deed S} (h : m.Moves deed m')
    (htask : ∀ t, deed ≠ .task t)
    (hregister : ∀ name disposer, deed ≠ .update (.onDestroy name disposer)) :
    m'.registry.disposers = m.registry.disposers := by
  cases deed with
  | update u =>
      cases h
      exact (Registry.flag_disposers_apply _ u).2 fun name disposer hu =>
        hregister name disposer (congrArg Deed.update hu)
  | task t => exact absurd rfl (htask t)
  | _ => exact (h.agreesOutside (by simp) (by simp)).disposers

namespace Config

/-- The disposer that the next step registers, with its name. -/
def registered (r : S.Index) : Config S α → Multiset (Name × S.Disposer)
  | ⟨_, .script (.call s (.onDestroy name disposer) _), _, _⟩ =>
    if s = r then {(name, disposer)} else 0
  | _ => 0

/-- The disposer in whose place the next step registers another one, with its name. -/
def replaced (r : S.Index) : Config S α → Multiset (Name × S.Disposer)
  | ⟨_, .script (.call s (.onDestroy name _) _), _, w⟩ =>
    if s = r then (w.registry r).disposers.pairAt name else 0
  | _ => 0

/-- The disposer that the next step starts, with its name. -/
def disposals (r : S.Index) : Config S α → List (Name × S.Disposer)
  | ⟨_, .teardown s (.dispose name disposer :: _) _, _, _⟩ =>
    if s = r then [(name, disposer)] else []
  | _ => []

/-- The disposers that are taken out of the registry, and not started yet. -/
def awaiting (r : S.Index) (c : Config S α) : Multiset (Name × S.Disposer) :=
  ((c.pending r).filterMap Task.disposing? : List (Name × S.Disposer))

@[simp] lemma awaiting_start (script : Script S α) (w : World S) :
    (Config.start script w).awaiting r = 0 := rfl

variable {c : Config S α}

/-- A step that registers nothing replaces nothing. -/
lemma registered_eq_zero (h : ∀ name disposer, ¬ c.Does r (.update (.onDestroy name disposer))) :
    c.registered r = 0 ∧ c.replaced r = 0 := by
  obtain ⟨role, activity, stack, w⟩ := c
  cases activity with
  | teardown s tasks next => exact ⟨rfl, rfl⟩
  | script script =>
      cases script with
      | call s u next =>
          cases u with
          | onDestroy name disposer =>
              have hs : s ≠ r := by
                rintro rfl
                exact h name disposer (.update _)
              exact ⟨if_neg hs, if_neg hs⟩
          | _ => exact ⟨rfl, rfl⟩
      | _ => exact ⟨rfl, rfl⟩

lemma disposals_eq_nil (h : ∀ t, ¬ c.Does r (.task t)) : c.disposals r = [] := by
  obtain ⟨role, activity, stack, w⟩ := c
  cases activity with
  | script script => rfl
  | teardown s tasks next =>
      cases tasks with
      | nil => rfl
      | cons t tasks =>
          have hs : s ≠ r := by
            rintro rfl
            exact h t (.task t)
          cases t with
          | dispose name disposer => exact if_neg hs
          | _ => rfl

lemma Does.disposals_eq {t : Task S} (h : c.Does r (.task t)) :
    c.disposals r = t.disposing?.toList := by
  cases h
  cases t with
  | dispose name disposer => exact if_pos rfl
  | _ => rfl

lemma Does.registered_eq {name : Name} {disposer : S.Disposer}
    (h : c.Does r (.update (.onDestroy name disposer))) :
    c.registered r = {(name, disposer)} ∧
      c.replaced r = (c.world.registry r).disposers.pairAt name := by
  cases h
  exact ⟨if_pos rfl, if_pos rfl⟩

lemma Does.not_does_update {t : Task S} {u : Update S} (h : c.Does r (.task t)) :
    ¬ c.Does r (.update u) := by
  cases h
  exact fun hupdate => nomatch hupdate

variable (caller) in
/-- Only a task takes a disposer out, or starts one. -/
lemma awaiting_step (h : ∀ t, ¬ c.Does r (.task t)) :
    (step caller c).awaiting r = c.awaiting r := by
  obtain ⟨ahead, hnext, hroots⟩ := exists_pending_step caller h
  have hnone : ahead.filterMap Task.disposing? = [] := by
    refine List.filterMap_eq_nil_iff.mpr fun t ht => ?_
    have hroot := hroots t ht
    cases t with
    | dispose name disposer => exact absurd hroot (by simp [Task.isRoot])
    | _ => rfl
  rw [awaiting, awaiting, hnext, List.filterMap_append, hnone, List.nil_append]

variable (caller) in
/-- Only a registration and a task change the disposers. -/
lemma disposers_step (htask : ∀ t, ¬ c.Does r (.task t))
    (hregister : ∀ name disposer, ¬ c.Does r (.update (.onDestroy name disposer))) :
    ((step caller c).world.registry r).disposers = (c.world.registry r).disposers := by
  obtain ⟨deed, hdoes, hmoves⟩ := step_moves caller r c
  exact hmoves.disposers_eq (by rintro t rfl; exact htask t hdoes)
    (by rintro name disposer rfl; exact hregister name disposer hdoes)

end Config

/-! ### The balance of a step -/

/-- A destruction takes out the disposer that it will run. -/
lemma Registry.pairs_perform (g : Registry S) (t : Task S) :
    (g.perform t).registry.disposers.pairs +
        (((g.perform t).answer.filterMap Task.disposing? : List (Name × S.Disposer)) :
          Multiset (Name × S.Disposer)) =
      g.disposers.pairs := by
  have hroots : ∀ names : List Name,
      (names.map (Task.destroy (S := S))).filterMap Task.disposing? = [] := fun names =>
    List.filterMap_eq_nil_iff.mpr (by simp [Task.disposing?])
  cases t with
  | destroy name =>
      have hown : ((g.perform (.destroy name)).answer.filterMap Task.disposing?) =
          (g.disposers.get? name).toList.map (name, ·) := by
        cases hd : g.disposers.get? name <;>
          simp [perform, beginDestroy, List.filterMap_append, hroots, hd, Task.disposing?]
      rw [hown]
      exact NameMap.pairs_erase g.disposers name
  | destroyContents name =>
      have hnone : (g.perform (.destroyContents name)).answer.filterMap Task.disposing? = [] :=
        hroots _
      rw [hnone]
      exact add_zero _
  | destroyAll =>
      have hnone : (g.perform .destroyAll).answer.filterMap Task.disposing? = [] := by
        simp [perform, beginDestroyAll, List.filterMap_append, hroots, Task.disposing?]
      rw [hnone]
      exact add_zero _
  | _ => exact add_zero _

variable (caller r) in
/-- **The balance of a step**: what is registered before it or by it is replaced by it, or is
started by it, or is registered after it, or waits to be run then. -/
theorem ledger_step (c : Config S α) :
    (c.world.registry r).disposers.pairs + c.awaiting r + c.registered r =
      c.replaced r + (c.disposals r : Multiset (Name × S.Disposer)) +
        (((step caller c).world.registry r).disposers.pairs + (step caller c).awaiting r) := by
  by_cases htask : ∃ t, c.Does r (.task t)
  · obtain ⟨t, ht⟩ := htask
    obtain ⟨rest, hpending, hnext⟩ := ht.pending_task caller
    have hregistry : (step caller c).world.registry r =
        ((c.world.registry r).perform t).registry :=
      congrArg Moment.registry (ht.moment_task caller)
    have hnone := Config.registered_eq_zero fun name disposer h => ht.not_does_update h
    have hbalance := (c.world.registry r).pairs_perform t
    have htaken : c.awaiting r = (t.disposing?.toList : Multiset (Name × S.Disposer)) +
        (rest.filterMap Task.disposing? : List (Name × S.Disposer)) := by
      rw [Config.awaiting, hpending]
      cases hd : t.disposing? <;> simp [hd]
    have hleft : (step caller c).awaiting r =
        ((((c.world.registry r).perform t).answer.filterMap Task.disposing? :
          List (Name × S.Disposer)) : Multiset (Name × S.Disposer)) +
        (rest.filterMap Task.disposing? : List (Name × S.Disposer)) := by
      rw [Config.awaiting, hnext, List.filterMap_append, Multiset.coe_add]
    rw [hnone.1, hnone.2, ht.disposals_eq, hregistry, htaken, hleft, ← hbalance]
    abel
  rw [not_exists] at htask
  rw [Config.awaiting_step caller htask, Config.disposals_eq_nil htask, Multiset.coe_nil]
  by_cases hregister : ∃ name disposer, c.Does r (.update (.onDestroy name disposer))
  · obtain ⟨name, disposer, hdoes⟩ := hregister
    have hregistry : ((step caller c).world.registry r).disposers =
        (c.world.registry r).disposers.insert name disposer :=
      congrArg (fun m => m.registry.disposers) (hdoes.moment_update caller)
    rw [hdoes.registered_eq.1, hdoes.registered_eq.2, hregistry, add_right_comm,
      ← NameMap.pairs_insert]
    abel
  · simp only [not_exists] at hregister
    rw [(Config.registered_eq_zero hregister).1, (Config.registered_eq_zero hregister).2,
      Config.disposers_step caller htask hregister]
    abel

/-! ### What is seen of the disposers -/

section Seen

variable {role : Role} {stack : Stack S α role} {w : World S}

lemma seen_disposing_log (w : World S) (notices : List Notice) :
    (w.log s notices).seen (Entry.disposing? r) = w.seen (Entry.disposing? r) := by
  have hnone : (notices.map (Entry.notice s)).filterMap (Entry.disposing? r) = [] := by
    refine List.filterMap_eq_nil_iff.mpr fun e he => ?_
    obtain ⟨notice, -, rfl⟩ := List.mem_map.mp he
    rfl
  rw [World.seen_log, hnone, List.append_nil]

/-- A line that starts no disposer is not seen. -/
lemma seen_disposing_write (w : World S) {e : Entry S} (h : e.disposing? r = none) :
    (w.write e).seen (Entry.disposing? r) = w.seen (Entry.disposing? r) := by
  rw [World.seen_write, List.filterMap_cons_none h, List.filterMap_nil, List.append_nil]

lemma seen_disposing_report (event : Option Event) (next : Activity S (role.Result S α)) :
    (report caller s event next stack w).world.seen (Entry.disposing? r) =
      w.seen (Entry.disposing? r) := by
  unfold report
  split
  · rfl
  · split <;> exact seen_disposing_write w rfl

lemma seen_disposing_commit (change : Registry.Change S β)
    (next : β → Activity S (role.Result S α)) :
    (commit caller s change next stack w).world.seen (Entry.disposing? r) =
      w.seen (Entry.disposing? r) :=
  (seen_disposing_report _ _).trans (seen_disposing_log _ _)

/-- The end of a call's code starts no disposer. -/
lemma seen_disposing_step_done (stack : Stack S α role) (result : role.Result S α) (w : World S) :
    (step caller ⟨role, .script (.done result), stack, w⟩).world.seen (Entry.disposing? r) =
      w.seen (Entry.disposing? r) := by
  cases stack with
  | bottom => rfl
  | creating s name opened next below => exact seen_disposing_commit _ _
  | exposing s name factory next below => exact seen_disposing_commit _ _
  | disposing s name tasks next below =>
      cases result with
      | ok _ => rfl
      | error failure => exact seen_disposing_commit _ _
  | observing next below => rfl

variable (caller r) in
/-- The journal tells of every disposer that is started. -/
theorem seen_disposing_step (c : Config S α) :
    (step caller c).world.seen (Entry.disposing? r) =
      c.world.seen (Entry.disposing? r) ++ c.disposals r := by
  obtain ⟨role, activity, stack, w⟩ := c
  cases activity with
  | teardown s tasks next =>
      cases tasks with
      | nil => exact (List.append_nil _).symm
      | cons t tasks =>
          cases t with
          | dispose name disposer =>
              refine (World.seen_write w _).trans (congrArg (_ ++ ·) ?_)
              by_cases hs : s = r <;> simp [Config.disposals, Entry.disposing?, hs]
          | _ => exact (seen_disposing_commit _ _).trans (List.append_nil _).symm
  | script script =>
      refine Eq.trans ?_ (List.append_nil _).symm
      cases script with
      | done result => exact seen_disposing_step_done stack result w
      | note content next => exact seen_disposing_write w rfl
      | call s u next => exact seen_disposing_commit _ _
      | find s name early next =>
          simp only [step, stepScript]
          split
          · rfl
          · exact seen_disposing_write _ rfl
      | demand s name factory next =>
          simp only [step, stepScript]
          split
          · exact seen_disposing_log w _
          · exact (seen_disposing_write _ rfl).trans (seen_disposing_log _ _)
      | tearDownAll s next => exact seen_disposing_commit _ _
      | _ => rfl

end Seen

/-! ### The balance of a run -/

variable (caller r) in
/-- The disposers that the first steps start, in order. -/
def disposed (n : ℕ) (c : Config S α) : List (Name × S.Disposer) :=
  (List.range n).flatMap fun i => (run caller i c).disposals r

lemma disposed_succ (n : ℕ) (c : Config S α) :
    disposed caller r (n + 1) c = disposed caller r n c ++ (run caller n c).disposals r := by
  simp [disposed, List.range_succ, List.flatMap_append]

variable (caller r) in
lemma seen_disposing_run (n : ℕ) (c : Config S α) :
    (run caller n c).world.seen (Entry.disposing? r) =
      c.world.seen (Entry.disposing? r) ++ disposed caller r n c := by
  induction n with
  | zero => exact (List.append_nil _).symm
  | succ n ih => rw [run_succ', seen_disposing_step, ih, disposed_succ, List.append_assoc]

variable (caller r) in
/-- **The balance of a run**: what is registered at its beginning or in its course is replaced, or
is started, or is registered at its end, or waits to be run then. -/
theorem ledger_run (n : ℕ) (c : Config S α) :
    (c.world.registry r).disposers.pairs + c.awaiting r +
        ∑ i ∈ Finset.range n, (run caller i c).registered r =
      ∑ i ∈ Finset.range n, (run caller i c).replaced r +
        (disposed caller r n c : Multiset (Name × S.Disposer)) +
        (((run caller n c).world.registry r).disposers.pairs + (run caller n c).awaiting r) := by
  induction n with
  | zero => simp [disposed, run]
  | succ n ih =>
      rw [Finset.sum_range_succ, Finset.sum_range_succ, disposed_succ, ← Multiset.coe_add,
        run_succ', ← add_assoc, ih, add_assoc, ledger_step caller r (run caller n c)]
      abel

end InstanceRegistry
