import InstanceRegistry.Proofs.Teardown.Ledger

/-!
What the destruction of all names leaves behind, whatever the disposers and the observer do in the
meantime. The caches and the relations are emptied at its end. The names to be destroyed are listed
at its beginning, so a disposer stays that is registered after its name has had its turn.

* `Registry.Cleared`, `Closing`, `Tidying`: a run of the destruction comes to its end by way of the
  task that clears the registry;
* `Config.Registers`, `Config.Destroys`, `mem_disposers_step`: the names with a disposer;
* `mem_disposers_iff_of_ends`: the names that have one at the end;
* `destroyAll_leaves`: what is left, and what has become of every disposer;
* `destroyAll_leaves_replaced`, `disposer_left_behind`: a disposer that registers another one, for a
  name that still has its turn to come, or for any other name.
-/

namespace InstanceRegistry

variable {S : Setup} {α : Type} {caller : Caller S} {r : S.Index} {name : Name}

/-! ### The end of the destruction -/

/-- The caches and the relations are empty, and creations are allowed. -/
structure Registry.Cleared (g : Registry S) : Prop where
  objects : g.objects = ∅
  earlyFactories : g.earlyFactories = ∅
  earlyReferences : g.earlyReferences = ∅
  known : g.known = ∅
  relations : g.relations = {}
  live : g.inDestruction = false

lemma Registry.cleared_reset (g : Registry S) : g.reset.registry.Cleared :=
  ⟨rfl, rfl, rfl, rfl, rfl, rfl⟩

/-- The tasks of a destruction of all names: at their end stands the one that clears the registry,
or they are still to be listed. -/
inductive Closing : List (Task S) → Prop
  | all : Closing [.destroyAll]
  | reset (tasks : List (Task S)) : Closing (tasks ++ [.reset])

lemma Closing.ne_nil {tasks : List (Task S)} (h : Closing tasks) : tasks ≠ [] := by
  cases h with
  | all => exact List.cons_ne_nil _ _
  | reset tasks => exact List.append_ne_nil_of_right_ne_nil _ (List.cons_ne_nil _ _)

/-- A task leaves the end of the tasks as it is, unless it is the end. -/
lemma Closing.perform {t : Task S} {rest : List (Task S)} (h : Closing (t :: rest))
    (g : Registry S) : t = .reset ∧ rest = [] ∨ Closing ((g.perform t).answer ++ rest) := by
  generalize htasks : t :: rest = tasks at h
  cases h with
  | all =>
      obtain ⟨rfl, rfl⟩ := List.cons.inj htasks
      rw [List.append_nil]
      exact Or.inr (.reset _)
  | reset tasks =>
      cases tasks with
      | nil =>
          obtain ⟨rfl, rfl⟩ := List.cons.inj htasks
          exact Or.inl ⟨rfl, rfl⟩
      | cons first tasks =>
          rw [List.cons_append] at htasks
          obtain ⟨rfl, rfl⟩ := List.cons.inj htasks
          rw [← List.append_assoc]
          exact Or.inr (.reset _)

/-- The configurations of a run of the destruction of all names, after its announcement: its tasks
are done, or wait for a disposer or for the observer, or the registry is cleared. -/
inductive Tidying (r : S.Index) : Config S Unit → Prop
  | tasks {tasks : List (Task S)} {w : World S} (h : Closing tasks) :
      Tidying r ⟨.client, .teardown r tasks (.done ()), .bottom, w⟩
  | disposing {c : Config S (Except Error Unit)} {name : Name} {tasks : List (Task S)}
      (h : Closing tasks) :
      Tidying r (c.inside .done (.disposing r name tasks (.done ()) .bottom))
  | observing {c : Config S Unit} {tasks : List (Task S)} (h : Closing tasks) :
      Tidying r (c.inside .done (.observing (.teardown r tasks (.done ())) .bottom))
  | cleared {w : World S} (h : (w.registry r).Cleared) :
      Tidying r ⟨.client, .teardown r [] (.done ()), .bottom, w⟩
  | ended {w : World S} (h : (w.registry r).Cleared) : Tidying r (Config.start (.done ()) w)

namespace Tidying

variable {tasks : List (Task S)} {w : World S}

variable (caller) in
/-- An event is reported before the tasks go on. -/
lemma report (h : Closing tasks) (event : Option Event) (w : World S) :
    Tidying r (report caller r event (.teardown r tasks (.done ())) .bottom w) := by
  cases event with
  | none => exact .tasks h
  | some e =>
      cases ho : (w.registry r).observer with
      | none =>
          simp only [InstanceRegistry.report, ho]
          exact .tasks h
      | some o =>
          simp only [InstanceRegistry.report, ho]
          rw [← start_inside]
          exact .observing h

variable (caller) in
/-- A part of the destruction is done and reported before the tasks go on. -/
lemma proceed (change : Registry.Change S (List (Task S))) (h : Closing (change.answer ++ tasks))
    (w : World S) : Tidying r (proceed caller r change tasks (.done ()) .bottom w) :=
  report caller h _ _

/-- The first task is done. -/
lemma step_tasks (h : Closing tasks) (w : World S) :
    Tidying r (step caller ⟨.client, .teardown r tasks (.done ()), .bottom, w⟩) := by
  cases tasks with
  | nil => exact absurd rfl h.ne_nil
  | cons t rest =>
      rcases h.perform (w.registry r) with ⟨rfl, rfl⟩ | hnext
      · refine .cleared ?_
        show ((w.setRegistry r (w.registry r).reset.registry).registry r).Cleared
        rw [World.registry_setRegistry_self]
        exact Registry.cleared_reset _
      · cases t with
        | dispose name disposer =>
            simp only [step, stepTeardown]
            rw [← start_inside]
            exact .disposing hnext
        | _ => exact proceed caller ((w.registry r).perform _) hnext w

/-- Whatever runs in between, the tasks are left. -/
lemma step {c : Config S Unit} (h : Tidying r c) : Tidying r (step caller c) := by
  cases h with
  | tasks h => exact step_tasks h _
  | @disposing c name tasks h =>
      cases hc : c.result? with
      | none =>
          rw [step_inside hc]
          exact .disposing h
      | some result =>
          obtain ⟨w, rfl⟩ := Config.eq_start_of_result? hc
          cases result with
          | ok _ => exact .tasks h
          | error failure => exact proceed caller ((w.registry r).reportFailure name failure) h w
  | @observing c tasks h =>
      cases hc : c.result? with
      | none =>
          rw [step_inside hc]
          exact .observing h
      | some result =>
          obtain ⟨w, rfl⟩ := Config.eq_start_of_result? hc
          exact .tasks h
  | cleared h => exact .ended h
  | ended h => exact .ended h

/-- At the end of the run the registry is cleared. -/
lemma cleared_of_done (h : Tidying r (Config.start (.done ()) w)) : (w.registry r).Cleared := by
  generalize hc : Config.start (.done ()) w = c at h
  cases h with
  | tasks h => simp [Config.start] at hc
  | @disposing c name tasks h =>
      have hrole : Role.client = Role.disposer.inside c.role := congrArg Config.role hc
      cases hr : c.role <;> rw [hr] at hrole <;> cases hrole
  | @observing c tasks h =>
      have hrole : Role.client = Role.observer.inside c.role := congrArg Config.role hc
      cases hr : c.role <;> rw [hr] at hrole <;> cases hrole
  | cleared h => simp [Config.start] at hc
  | @ended w' h =>
      have hw : w = w' := congrArg Config.world hc
      exact hw ▸ h

end Tidying

/-! ### The names with a disposer -/

/-- The destruction of a name takes its disposer out. -/
lemma Registry.mem_disposers_perform {g : Registry S} {t : Task S} :
    name ∈ (g.perform t).registry.disposers ↔ name ∈ g.disposers ∧ t ≠ .destroy name := by
  cases t with
  | destroy other =>
      show name ∈ g.disposers.erase other ↔ _
      rw [NameMap.mem_erase, and_comm, ne_comm, ne_eq, ne_eq, Task.destroy.injEq]
  | _ => exact (and_iff_left (by simp)).symm

namespace Config

variable {c : Config S α}

/-- The next step registers a disposer for the name. -/
def Registers (r : S.Index) (name : Name) (c : Config S α) : Prop :=
  ∃ disposer, c.Does r (.update (.onDestroy name disposer))

/-- The next step takes the disposer of the name out, if there is one. -/
def Destroys (r : S.Index) (name : Name) (c : Config S α) : Prop :=
  c.Does r (.task (.destroy name))

lemma Does.task_eq {t t' : Task S} (h : c.Does r (.task t)) (h' : c.Does r (.task t')) :
    t = t' := by
  cases h
  cases h'
  rfl

lemma Does.name_eq {other : Name} {d d' : S.Disposer}
    (h : c.Does r (.update (.onDestroy name d))) (h' : c.Does r (.update (.onDestroy other d'))) :
    name = other := by
  cases h
  cases h'
  rfl

/-- A name has a disposer since one was registered for it, until it is destroyed. -/
lemma mem_disposers_step : name ∈ ((step caller c).world.registry r).disposers ↔
    c.Registers r name ∨ name ∈ (c.world.registry r).disposers ∧ ¬ c.Destroys r name := by
  by_cases htask : ∃ t, c.Does r (.task t)
  · obtain ⟨t, ht⟩ := htask
    have hregistry : (step caller c).world.registry r =
        ((c.world.registry r).perform t).registry :=
      congrArg Moment.registry (ht.moment_task caller)
    have hregisters : ¬ c.Registers r name := fun ⟨_, h⟩ => ht.not_does_update h
    have hdestroys : c.Destroys r name ↔ t = .destroy name :=
      ⟨fun h => ht.task_eq h, by rintro rfl; exact ht⟩
    rw [hregistry, Registry.mem_disposers_perform, hdestroys, or_iff_right hregisters]
  rw [not_exists] at htask
  have hdestroys : ¬ c.Destroys r name := htask _
  rw [and_iff_left hdestroys]
  by_cases hregister : ∃ other disposer, c.Does r (.update (.onDestroy other disposer))
  · obtain ⟨other, disposer, hdoes⟩ := hregister
    have hregistry : ((step caller c).world.registry r).disposers =
        (c.world.registry r).disposers.insert other disposer :=
      congrArg (fun m => m.registry.disposers) (hdoes.moment_update caller)
    have hregisters : c.Registers r name ↔ name = other :=
      ⟨fun ⟨_, h⟩ => h.name_eq hdoes, fun h => ⟨disposer, h ▸ hdoes⟩⟩
    rw [hregistry, NameMap.mem_insert, hregisters]
  · simp only [not_exists] at hregister
    have hregisters : ¬ c.Registers r name := fun ⟨d, h⟩ => hregister name d h
    rw [disposers_step caller htask hregister, or_iff_right hregisters]

end Config

/-- At any moment of a run the names with a disposer are those that had one at the beginning, or got
one, and have not been destroyed since. -/
lemma mem_disposers_run (c : Config S α) (k : ℕ) :
    name ∈ ((run caller k c).world.registry r).disposers ↔
      (name ∈ (c.world.registry r).disposers ∧ ∀ l < k, ¬ (run caller l c).Destroys r name) ∨
        ∃ i < k, (run caller i c).Registers r name ∧
          ∀ l, i < l → l < k → ¬ (run caller l c).Destroys r name :=
  run_holds_iff (fun d => name ∈ (d.world.registry r).disposers) (Config.Registers r name)
    (Config.Destroys r name) (fun _ => Config.mem_disposers_step) c k

/-! ### The destruction of all names -/

section Destruction

variable {w w' : World S} {n k : ℕ}

variable (caller r w) in
/-- The destruction of all names as a run of its own, after so many steps. -/
def destruction (k : ℕ) : Config S Unit := run caller k (Config.start (Script.destroyAll r) w)

lemma destruction_succ (k : ℕ) :
    destruction caller r w (k + 1) = step caller (destruction caller r w k) :=
  run_succ' caller k _

/-- The destruction begins with its announcement. -/
lemma destruction_one : destruction caller r w 1 =
    report caller r (some .destroyAll) (.teardown r [.destroyAll] (.done ())) .bottom
      (w.carry r (w.registry r).announceDestroyAll) := rfl

lemma pos_of_ends (hends : destruction caller r w n = Config.start (.done ()) w') : 0 < n := by
  refine Nat.pos_of_ne_zero fun hn => ?_
  subst hn
  simp [destruction, run, Config.start, Script.destroyAll] at hends

/-- The destruction comes to its end with the registry cleared. -/
lemma cleared_of_ends (hends : destruction caller r w n = Config.start (.done ()) w') :
    (w'.registry r).Cleared := by
  have hfirst : Tidying r (destruction caller r w 1) := by
    rw [destruction_one]
    exact Tidying.report caller .all _ _
  have htidying : ∀ k, 0 < k → Tidying r (destruction caller r w k) := by
    intro k hk
    induction k, hk using Nat.le_induction with
    | base => exact hfirst
    | succ k _ ih =>
        rw [destruction_succ]
        exact ih.step
  exact (hends ▸ htidying n (pos_of_ends hends)).cleared_of_done

/-- A task that is left in the course of the destruction is done before its end. -/
lemma exists_does_of_ends (hends : destruction caller r w n = Config.start (.done ()) w')
    (hk : k ≤ n) {t : Task S} (ht : t ∈ (destruction caller r w k).pending r) :
    ∃ l, k ≤ l ∧ l < n ∧ (destruction caller r w l).Does r (.task t) := by
  refine exists_does_of_mem_pending ht hk ?_
  rw [show run caller n (Config.start (Script.destroyAll r) w) = _ from hends]
  exact List.not_mem_nil

/-- A name that has a disposer at the beginning is destroyed. -/
lemma exists_destroys_of_mem (hends : destruction caller r w n = Config.start (.done ()) w')
    (hname : name ∈ (w.registry r).disposers) :
    ∃ l < n, (destruction caller r w l).Destroys r name := by
  have hlist : .destroyAll ∈ (destruction caller r w 1).pending r := by
    rw [destruction_one, pending_report]
    simp [Activity.tasks]
  obtain ⟨b, -, hbn, hall⟩ := exists_does_of_ends hends (pos_of_ends hends) hlist
  by_contra hnever
  simp only [not_exists, not_and] at hnever
  have hkept : name ∈ ((destruction caller r w b).world.registry r).disposers :=
    (mem_disposers_run _ b).mpr (Or.inl ⟨hname, fun l hl => hnever l (by omega)⟩)
  obtain ⟨rest, -, hnext⟩ := hall.pending_task caller
  have hlisted : .destroy name ∈ (destruction caller r w (b + 1)).pending r := by
    rw [destruction_succ, hnext]
    refine List.mem_append_left _ (List.mem_append_left _ (List.mem_map_of_mem ?_))
    exact List.mem_reverse.mpr hkept
  obtain ⟨l, -, hl, hdestroys⟩ := exists_does_of_ends hends hbn hlisted
  exact hnever l hl hdestroys

/-- At the end a name has a disposer if one was registered for it in the course of the destruction,
and it has not been destroyed since. -/
lemma mem_disposers_iff_of_ends (hends : destruction caller r w n = Config.start (.done ()) w') :
    name ∈ (w'.registry r).disposers ↔
      ∃ i < n, (destruction caller r w i).Registers r name ∧
        ∀ l, i < l → l < n → ¬ (destruction caller r w l).Destroys r name := by
  have hlaw : name ∈ ((destruction caller r w n).world.registry r).disposers ↔ _ :=
    mem_disposers_run _ n
  rw [hends] at hlaw
  refine hlaw.trans (or_iff_right fun hfirst => ?_)
  obtain ⟨l, hl, hdestroys⟩ := exists_destroys_of_mem hends hfirst.1
  exact hfirst.2 l hl hdestroys

/-- What is registered for a name that is still to be destroyed is taken out. -/
lemma exists_destroys_of_registers
    (hends : destruction caller r w n = Config.start (.done ()) w') (hk : k < n)
    (hregisters : (destruction caller r w k).Registers r name)
    (hdue : .destroy name ∈ (destruction caller r w k).pending r) :
    ∃ l, k < l ∧ l < n ∧ (destruction caller r w l).Destroys r name := by
  obtain ⟨disposer, hdoes⟩ := hregisters
  have hnot : ¬ (destruction caller r w k).Does r (.task (.destroy name)) :=
    fun h => h.not_does_update hdoes
  have hnext : .destroy name ∈ (destruction caller r w (k + 1)).pending r := by
    rw [destruction_succ]
    exact (mem_pending_step caller hdue).resolve_left hnot
  obtain ⟨l, hkl, hl, hdestroys⟩ := exists_does_of_ends hends hk hnext
  exact ⟨l, hkl, hl, hdestroys⟩

variable (caller) in
/-- **What the destruction of all names leaves** at its end, whatever the disposers and the observer
do in the meantime: empty caches and relations, and creations are allowed. Each disposer that was
registered before or in its course has been replaced or has run, once, or is there still. A name has
a disposer still if one was registered for it and the name has not been destroyed since. That is not
so where the name was still to be destroyed, and if it is so for no name, no disposer is left. -/
theorem destroyAll_leaves (r : S.Index) (w w' : World S) (n : ℕ)
    (hends : destruction caller r w n = Config.start (.done ()) w') :
    (w'.registry r).Cleared ∧
      (∃ runs : List (Name × S.Disposer),
        w'.seen (Entry.disposing? r) = w.seen (Entry.disposing? r) ++ runs ∧
        (w.registry r).disposers.pairs +
            ∑ i ∈ Finset.range n, (destruction caller r w i).registered r =
          ∑ i ∈ Finset.range n, (destruction caller r w i).replaced r +
            (runs : Multiset (Name × S.Disposer)) + (w'.registry r).disposers.pairs) ∧
      (∀ name, name ∈ (w'.registry r).disposers ↔
        ∃ i < n, (destruction caller r w i).Registers r name ∧
          ∀ l, i < l → l < n → ¬ (destruction caller r w l).Destroys r name) ∧
      (∀ i < n, ∀ name, (destruction caller r w i).Registers r name →
        .destroy name ∈ (destruction caller r w i).pending r →
        ∃ l, i < l ∧ l < n ∧ (destruction caller r w l).Destroys r name) ∧
      ((∀ i < n, ∀ name, (destruction caller r w i).Registers r name →
          ∃ l, i < l ∧ l < n ∧ (destruction caller r w l).Destroys r name) →
        (w'.registry r).disposers = ∅) := by
  have hlast : run caller n (Config.start (Script.destroyAll r) w) = Config.start (.done ()) w' :=
    hends
  have hseen := seen_disposing_run caller r n (Config.start (Script.destroyAll r) w)
  have hledger := ledger_run caller r n (Config.start (Script.destroyAll r) w)
  rw [hlast] at hseen hledger
  rw [Config.awaiting_start, Config.awaiting_start, add_zero, add_zero] at hledger
  refine ⟨cleared_of_ends hends, ⟨_, hseen, hledger⟩, fun name => mem_disposers_iff_of_ends hends,
    fun i hi name => exists_destroys_of_registers hends hi, fun htaken => ?_⟩
  refine NameMap.eq_empty_of_forall_not_mem fun name hname => ?_
  obtain ⟨i, hi, hregisters, hsince⟩ := (mem_disposers_iff_of_ends hends).mp hname
  obtain ⟨l, hil, hl, hdestroys⟩ := htaken i hi name hregisters
  exact hsince l hil hl hdestroys

end Destruction

/-! ### A disposer that registers another one -/

/-- One registry, and three disposers. -/
def lateSetup : Setup := ⟨.basic, 1, Empty, Option Bool, Empty, Unit, Empty⟩

/-- The number of the registry. -/
def lateIndex : lateSetup.Index := Fin.mk 0 Nat.one_pos

/-- One of the disposers registers another one for the client. -/
def lateCaller : Caller lateSetup where
  factory f := f.elim
  disposer
    | none => .call lateIndex (.onDestroy "client" (some true)) fun _ => .done (.ok ())
    | some _ => .done (.ok ())
  observer o _ := o.elim

/-- The server has that disposer, and the client has a disposer before, or none. -/
def lateWorld (listed : Bool) : World lateSetup :=
  let disposers := cond listed (NameMap.empty.insert "client" (some false)) ∅
  ⟨#v[{ disposers := disposers.insert "server" none }], (), 0, []⟩

/-- The run in which everything is destroyed. -/
def lateRun (listed : Bool) (k : ℕ) : Config lateSetup Unit :=
  destruction lateCaller lateIndex (lateWorld listed) k

/-- A disposer for a name that still has its turn to come replaces the one before it, and runs. -/
theorem destroyAll_leaves_replaced :
    lateRun true 15 = Config.start (.done ()) (lateRun true 15).world ∧
    (lateRun true 4).Registers lateIndex "client" ∧
    (lateRun true 4).replaced lateIndex = {("client", some false)} ∧
    (∀ i < 15, ∀ name, (lateRun true i).Registers lateIndex name →
      ∃ l, i < l ∧ l < 15 ∧ (lateRun true l).Destroys lateIndex name) ∧
    ((lateRun true 15).world.registry lateIndex).Cleared ∧
    ((lateRun true 15).world.registry lateIndex).disposers = ∅ ∧
    (lateRun true 15).world.seen (Entry.disposing? lateIndex) =
      [("server", none), ("client", some true)] := by
  have hends : lateRun true 15 = Config.start (.done ()) (lateRun true 15).world :=
    Config.eq_start_world rfl
  obtain ⟨hcleared, -, -, hdue, hnone⟩ :=
    destroyAll_leaves lateCaller lateIndex (lateWorld true) (lateRun true 15).world 15 hends
  have htaken : ∀ i < 15, ∀ name, (lateRun true i).Registers lateIndex name →
      ∃ l, i < l ∧ l < 15 ∧ (lateRun true l).Destroys lateIndex name := by
    intro i hi name hregisters
    refine hdue i hi name hregisters ?_
    obtain ⟨disposer, hdoes⟩ := hregisters
    interval_cases i <;> cases hdoes
    exact .tail _ (.tail _ (.head _))
  exact ⟨hends, ⟨_, .update _⟩, rfl, htaken, hcleared, hnone htaken, rfl⟩

/-- A disposer for any other name is left behind, though nothing replaces it: it has not run at the
end, and is registered still. -/
theorem disposer_left_behind :
    lateRun false 10 = Config.start (.done ()) (lateRun false 10).world ∧
    (lateRun false 4).Registers lateIndex "client" ∧
    (∀ i < 10, (lateRun false i).replaced lateIndex = 0) ∧
    ((lateRun false 10).world.registry lateIndex).Cleared ∧
    ((lateRun false 10).world.registry lateIndex).disposerNames = ["client"] ∧
    (lateRun false 10).world.seen (Entry.disposing? lateIndex) = [("server", none)] :=
  ⟨Config.eq_start_world rfl, ⟨_, .update _⟩, by intro i hi; interval_cases i <;> rfl,
    ⟨rfl, rfl, rfl, rfl, rfl, rfl⟩, by decide +kernel, rfl⟩

end InstanceRegistry
