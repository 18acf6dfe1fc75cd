import InstanceRegistry.Proofs.Registry.Relations
import InstanceRegistry.Proofs.Run.Pending

/-!
The dependents and the dependencies of names are inverses of each other, as long as nothing is being
destroyed. A destruction takes the dependents of a name out at once, and what they depend on only
when each of them has been destroyed. In between, the tasks that are left account for the
difference.

* `Relations.Paired`: every dependent is matched by a dependency, and every dependency by a
  dependent or by a task that is left;
* `Relations.Paired.depend`, `Relations.Paired.apply`, `Relations.Paired.perform`: what keeps it;
* `Moment.Moves.apply_or_relations_eq`: apart from the tasks, only operations change the relations;
* `paired_of_run`: it holds at every moment of a run;
* `dependencies_inverse`: outside of destructions, the two sides agree;
* `dependencies_inverse_tangled`: a disposer that records dependencies and destroys names.
-/

namespace InstanceRegistry

variable {S : Setup} {α : Type} {caller : Caller S} {r : S.Index}

/-! ### Dependents and dependencies -/

namespace Relations

variable {g : Relations} {pending : List (Task S)}

/-- A name that depends on another one is among the dependents of that one, or will be forgotten by
one of the tasks. -/
structure Paired (g : Relations) (pending : List (Task S)) : Prop where
  dependency : ∀ {n d}, d ∈ g.dependents.successors n → n ∈ g.dependencies.successors d
  dependent : ∀ {n d}, n ∈ g.dependencies.successors d →
    d ∈ g.dependents.successors n ∨ .destroy d ∈ pending ∨ .forget d ∈ pending
  trim : g.dependents.Trim

lemma paired_empty (pending : List (Task S)) : Paired {} pending where
  dependency h := absurd h List.not_mem_nil
  dependent h := absurd h List.not_mem_nil
  trim := NameGraph.trim_empty

/-- The tasks matter by the names that they will forget. -/
lemma Paired.mono (h : g.Paired pending) {more : List (Task S)}
    (hsub : ∀ d, .destroy d ∈ pending ∨ .forget d ∈ pending →
      Task.destroy d ∈ more ∨ .forget d ∈ more) : g.Paired more where
  dependency := h.dependency
  dependent hn := (h.dependent hn).imp_right (hsub _)
  trim := h.trim

/-- A task that forgets nothing may be replaced by others. -/
lemma Paired.replace {t : Task S} {rest : List (Task S)} (h : g.Paired (t :: rest))
    (hdestroy : ∀ d, t ≠ .destroy d) (hforget : ∀ d, t ≠ .forget d) (ahead : List (Task S)) :
    g.Paired (ahead ++ rest) := by
  refine h.mono fun d hd => hd.imp (fun hd => ?_) fun hd => ?_
  · exact List.mem_append_right _ ((List.mem_cons.mp hd).resolve_left (hdestroy d).symm)
  · exact List.mem_append_right _ ((List.mem_cons.mp hd).resolve_left (hforget d).symm)

/-- A dependency is recorded on both sides, or known on both sides. -/
lemma Paired.depend (h : g.Paired pending) (dependent dependency : Name) :
    (g.depend dependent dependency).Paired pending := by
  unfold Relations.depend
  split
  · exact h
  · refine ⟨fun hd => ?_, fun hn => ?_, h.trim.link _ _⟩
    · rcases NameGraph.mem_successors_link _ |>.mp hd with ⟨rfl, rfl⟩ | hold
      · exact NameGraph.mem_successors_link _ |>.mpr (Or.inl ⟨rfl, rfl⟩)
      · exact NameGraph.mem_successors_link _ |>.mpr (Or.inr (h.dependency hold))
    · rcases NameGraph.mem_successors_link _ |>.mp hn with ⟨rfl, rfl⟩ | hold
      · exact Or.inl (NameGraph.mem_successors_link _ |>.mpr (Or.inl ⟨rfl, rfl⟩))
      · exact (h.dependent hold).imp_left
          fun hd => NameGraph.mem_successors_link _ |>.mpr (Or.inr hd)

lemma Paired.contain (h : g.Paired pending) (outer inner : Name) :
    (g.contain outer inner).Paired pending := ⟨h.dependency, h.dependent, h.trim⟩

/-- The dependents of a name may be taken out if they are all to be destroyed. -/
lemma Paired.takeDependents (h : g.Paired pending) {name : Name}
    (hdependents : ∀ d ∈ g.dependents.successors name, Task.destroy d ∈ pending) :
    (g.takeDependents name).Paired pending := by
  refine ⟨fun {n d} hd => ?_, fun {n d} hn => ?_, h.trim.erase name⟩
  · rw [Relations.takeDependents, NameGraph.successors_erase] at hd
    split at hd
    · exact absurd hd List.not_mem_nil
    · exact h.dependency hd
  · rcases h.dependent hn with hd | hlater
    · rw [Relations.takeDependents, NameGraph.successors_erase]
      split
      · next hname =>
          subst hname
          exact Or.inr (Or.inl (hdependents d hd))
      · exact Or.inl hd
    · exact Or.inr hlater

/-- A name that is forgotten is gone on both sides. -/
lemma Paired.scrub {name : Name} (h : g.Paired (.forget name :: pending)) :
    (g.scrub name).Paired pending := by
  refine ⟨fun {n d} hd => ?_, fun {n d} hn => ?_, g.dependents.trim_unlinkAll name⟩
  · rw [Relations.scrub, NameGraph.successors_unlinkAll, List.mem_filter, decide_eq_true_iff] at hd
    rw [Relations.scrub, NameGraph.successors_erase, if_neg hd.2]
    exact h.dependency hd.1
  · rw [Relations.scrub, NameGraph.successors_erase] at hn
    split at hn
    · exact absurd hn List.not_mem_nil
    · next hname =>
        rw [Relations.scrub, NameGraph.successors_unlinkAll, List.mem_filter, decide_eq_true_iff]
        refine (h.dependent hn).imp (fun hd => ⟨hd, hname⟩) (Or.imp (fun hd => ?_) fun hd => ?_)
        · simpa using hd
        · simpa [hname] using hd

/-- A task leaves what is missing to the tasks that come of it. -/
lemma Paired.perform {g : Registry S} {t : Task S} {rest : List (Task S)}
    (h : g.relations.Paired (t :: rest)) :
    (g.perform t).registry.relations.Paired ((g.perform t).answer ++ rest) := by
  cases t with
  | destroy name =>
      have hlater : g.relations.Paired ((g.perform (.destroy name)).answer ++ rest) := by
        refine h.mono fun d hd => ?_
        by_cases hname : d = name
        · -- the destruction of the name ends with forgetting it
          subst hname
          exact Or.inr (List.mem_append_left _ (by simp [Registry.perform, Registry.beginDestroy]))
        · refine hd.imp (fun hd => ?_) fun hd => ?_
          · exact List.mem_append_right _ (by simpa [hname] using hd)
          · exact List.mem_append_right _ (by simpa using hd)
      refine hlater.takeDependents fun d hd => List.mem_append_left _ ?_
      have hmem : Task.destroy d ∈ (g.dependentsOf name).map (Task.destroy (S := S)) :=
        List.mem_map_of_mem hd
      exact List.mem_append_left _ (List.mem_append_left _ hmem)
  | dispose name disposer => exact h.replace (by simp) (by simp) []
  | destroyContents name =>
      have hcontents : (g.relations.takeContents name).Paired (.destroyContents name :: rest) :=
        ⟨h.dependency, h.dependent, h.trim⟩
      exact hcontents.replace (by simp) (by simp) _
  | forget name => exact h.scrub
  | destroyAll => exact h.replace (by simp) (by simp) _
  | reset => exact paired_empty _

lemma Paired.apply {g : Registry S} (h : g.relations.Paired pending) (u : Update S) :
    (g.apply u).registry.relations.Paired pending := by
  rcases g.relations_apply u with hsame | ⟨dependent, dependency, -, hdepend⟩ |
    ⟨outer, inner, -, -, hcontain⟩
  · rw [hsame]
    exact h
  · rw [hdepend]
    exact h.depend dependent _
  · rw [hcontain]
    exact (h.contain outer inner).depend outer _

end Relations

/-! ### Runs -/

/-- Whatever is not a task leaves the relations as they are, unless it is an operation. -/
lemma Moment.Moves.apply_or_relations_eq {m m' : Moment S} {deed : Deed S} (h : m.Moves deed m')
    (htask : ∀ t, deed ≠ .task t) :
    (∃ u, m'.registry = (m.registry.apply u).registry) ∨
      m'.registry.relations = m.registry.relations := by
  cases deed with
  | update u =>
      cases h
      exact Or.inl ⟨u, rfl⟩
  | task t => exact absurd rfl (htask t)
  | _ => exact Or.inr (h.agreesOutside (by simp) (by simp)).relations

section Runs

variable (caller)

/-- A step of a run keeps the two sides paired, up to the tasks that are left. -/
lemma paired_step {c : Config S α} (h : (c.world.registry r).relations.Paired (c.pending r)) :
    ((step caller c).world.registry r).relations.Paired ((step caller c).pending r) := by
  by_cases htask : ∃ t, c.Does r (.task t)
  · obtain ⟨t, ht⟩ := htask
    obtain ⟨rest, hpending, hnext⟩ := ht.pending_task caller
    have hregistry : (step caller c).world.registry r =
        ((c.world.registry r).perform t).registry :=
      congrArg Moment.registry (ht.moment_task caller)
    rw [hpending] at h
    rw [hregistry, hnext]
    exact h.perform
  · rw [not_exists] at htask
    obtain ⟨deed, hdoes, hmoves⟩ := step_moves caller r c
    have hkept : ((step caller c).world.registry r).relations.Paired (c.pending r) := by
      rcases hmoves.apply_or_relations_eq fun t ht => htask t (ht ▸ hdoes) with ⟨u, hu⟩ | hsame
      · rw [show (step caller c).world.registry r = _ from hu]
        exact h.apply u
      · rw [show ((step caller c).world.registry r).relations = _ from hsame]
        exact h
    have hsuffix := suffix_pending_step caller htask
    exact hkept.mono fun d hd => hd.imp (hsuffix.subset ·) (hsuffix.subset ·)

variable (s : Script S α) (w : World S)

/-- At any moment of a run, whatever is missing on one side belongs to a task that is left. -/
theorem paired_of_run (hstart : (w.registry r).relations = {}) (k : ℕ) :
    ((run caller k (Config.start s w)).world.registry r).relations.Paired
      ((run caller k (Config.start s w)).pending r) := by
  induction k with
  | zero =>
      rw [show ((run caller 0 (Config.start s w)).world.registry r).relations = _ from hstart]
      exact Relations.paired_empty _
  | succ k ih =>
      rw [run_succ']
      exact paired_step caller ih

/-- **The dependents and the dependencies are inverses of each other** at every moment of a run at
which no task of a destruction is left: a name is a dependent of another one exactly if that one is
a dependency of it. None is listed twice, and a name has dependents exactly if some are listed. -/
theorem dependencies_inverse (hstart : (w.registry r).relations = {}) (k : ℕ)
    (hdone : (run caller k (Config.start s w)).pending r = []) (n : Name) :
    (∀ d, d ∈ ((run caller k (Config.start s w)).world.registry r).dependentsOf n ↔
      n ∈ ((run caller k (Config.start s w)).world.registry r).dependenciesOf d) ∧
    (((run caller k (Config.start s w)).world.registry r).dependentsOf n).Nodup ∧
    (((run caller k (Config.start s w)).world.registry r).dependenciesOf n).Nodup ∧
    (((run caller k (Config.start s w)).world.registry r).hasDependents n = true ↔
      ((run caller k (Config.start s w)).world.registry r).dependentsOf n ≠ []) := by
  have h := paired_of_run caller s w hstart k
  rw [hdone] at h
  refine ⟨fun d => ⟨h.dependency, fun hn => ?_⟩, NameGraph.nodup_successors _ n,
    NameGraph.nodup_successors _ n, decide_eq_true_iff.trans h.trim.mem_iff⟩
  rcases h.dependent hn with hd | hd | hd
  · exact hd
  · exact absurd hd List.not_mem_nil
  · exact absurd hd List.not_mem_nil

end Runs

/-! ### A disposer that records dependencies and destroys names -/

/-- One registry, and one disposer. -/
def tanglingSetup : Setup := ⟨.basic, 1, Empty, Unit, Empty, Unit, Empty⟩

/-- The number of the registry. -/
def tanglingIndex : tanglingSetup.Index := Fin.mk 0 Nat.one_pos

/-- The disposer records that its own name depends on another one, and destroys that one. Then it
records a dependency between two more names. -/
def tanglingCaller : Caller tanglingSetup where
  factory f := f.elim
  disposer _ :=
    .call tanglingIndex (.depend "client" "socket") fun _ =>
      .tearDown tanglingIndex "socket" <|
        .call tanglingIndex (.depend "report" "log") fun _ => .done (.ok ())
  observer o _ := o.elim

/-- A new registry as the only one of a world. -/
def tanglingWorld : World tanglingSetup := ⟨#v[{}], (), 0, []⟩

/-- The client, which has the disposer, depends on the server, which is destroyed. -/
def tangling : Script tanglingSetup Unit :=
  .call tanglingIndex (.depend "client" "server") fun _ =>
    .call tanglingIndex (.onDestroy "client" ()) fun _ =>
      Script.destroy tanglingIndex "server"

/-- The run of the script. -/
def tanglingRun (k : ℕ) : Config tanglingSetup Unit :=
  run tanglingCaller k (Config.start tangling tanglingWorld)

/-- While the dependents of the server are out, the two sides disagree. At the end they agree, about
the dependency as well that the disposer has left behind. -/
theorem dependencies_inverse_tangled :
    (tanglingWorld.registry tanglingIndex).relations = {} ∧
    ((tanglingRun 4).pending tanglingIndex).length = 3 ∧
    ((tanglingRun 4).world.registry tanglingIndex).dependenciesOf "client" = ["server"] ∧
    ((tanglingRun 4).world.registry tanglingIndex).dependentsOf "server" = [] ∧
    (tanglingRun 22).result? = some () ∧ (tanglingRun 22).pending tanglingIndex = [] ∧
    ((tanglingRun 22).world.registry tanglingIndex).dependentsOf "log" = ["report"] ∧
    "log" ∈ ((tanglingRun 22).world.registry tanglingIndex).dependenciesOf "report" ∧
    ((tanglingRun 22).world.registry tanglingIndex).hasDependents "log" = true := by
  have hstart : (tanglingWorld.registry tanglingIndex).relations = {} := rfl
  have hdone : (tanglingRun 22).pending tanglingIndex = [] := rfl
  have hlog : ((tanglingRun 22).world.registry tanglingIndex).dependentsOf "log" = ["report"] := by
    decide +kernel
  obtain ⟨hinverse, -, -, hhas⟩ :=
    dependencies_inverse tanglingCaller tangling tanglingWorld hstart 22 hdone "log"
  refine ⟨hstart, rfl, by decide +kernel, by decide +kernel, rfl, hdone, hlog,
    (hinverse "report").mp ?_, hhas.mpr ?_⟩
  · exact hlog ▸ List.mem_singleton_self _
  · exact hlog ▸ List.cons_ne_nil _ _

end InstanceRegistry
