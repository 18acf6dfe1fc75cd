import InstanceRegistry.Proofs.Teardown.DisposalOrder
import InstanceRegistry.Proofs.Teardown.Inverse

/-!
What a containment has to do with a dependency. A container becomes a dependent of what it contains
when the pair is recorded, under the name that the contained name stands for at that moment. It
stays one for as long as the pair is known, and is not recorded again when that name changes.

* `Config.NewlyContains`: the steps that record a pair that is not known;
* `Deed.RecordsDependent`, `Deed.ReleasesDependent`, `switched_dependents`: what records a dependent
  and what takes it out, and that nothing else does either;
* `Guarded`: a name's contents are destroyed before it is forgotten;
* `Relations.Secured`: a container is a dependent, or its contents are about to be destroyed;
* `Relations.Secured.perform`, `Relations.Secured.apply`, `secured_step`: what keeps it;
* `exists_newlyContains`, `mem_dependentsOf_of_newlyContains`: a known pair was recorded at a
  definite step, and its container is still recorded as it was then;
* `containment_dependency`: what holds after a containment is recorded;
* `containment_dependency_renewed`, `containment_relabeled`: a name whose alias stays, and one that
  becomes an alias in between.
-/

namespace InstanceRegistry

variable {S : Setup} {α : Type} {caller : Caller S} {r : S.Index} {outer inner d : Name}

/-! ### Recorded pairs -/

/-- The next step records that `outer` contains `inner`, which is not known. -/
def Config.NewlyContains (r : S.Index) (outer inner : Name) (c : Config S α) : Prop :=
  c.Does r (.update (.contain outer inner)) ∧ inner ∉ (c.world.registry r).containedIn outer

/-! ### Recorded dependents -/

/-- The deed records the dependent under `d`: by a dependency on a name that stands for `d`, or by a
containment of one that is not known. -/
def Deed.RecordsDependent (g : Registry S) (dependent d : Name) : Deed S → Prop
  | .update (.depend other name) => other = dependent ∧ g.canonical name = d
  | .update (.contain other name) =>
    other = dependent ∧ g.canonical name = d ∧ name ∉ g.containedIn other
  | _ => False

/-- The deed takes the dependent out from under `d`: a destruction of `d` begins, or one of the
dependent ends, or one of all names. -/
def Deed.ReleasesDependent (dependent d : Name) : Deed S → Prop
  | .task (.destroy name) => name = d
  | .task (.forget name) => name = dependent
  | .task .reset => True
  | _ => False

/-- The next step records the dependent under `d`. -/
def Config.RecordsDependent (r : S.Index) (dependent d : Name) (c : Config S α) : Prop :=
  ∃ deed, c.Does r deed ∧ deed.RecordsDependent (c.world.registry r) dependent d

/-- The next step takes the dependent out from under `d`. -/
def Config.ReleasesDependent (r : S.Index) (dependent d : Name) (c : Config S α) : Prop :=
  ∃ deed, c.Does r deed ∧ deed.ReleasesDependent dependent d

lemma Registry.mem_dependentsOf_apply_iff (g : Registry S) (u : Update S) {dependent : Name} :
    dependent ∈ (g.apply u).registry.dependentsOf d ↔
      (Deed.update u).RecordsDependent g dependent d ∨ dependent ∈ g.dependentsOf d := by
  cases u with
  | depend other name =>
      rw [mem_dependentsOf_apply_depend]
      exact or_congr_left (and_comm.trans (and_congr eq_comm eq_comm))
  | contain other name =>
      rw [mem_dependentsOf_apply_contain]
      refine or_congr_left ⟨fun h => ⟨h.2.2.symm, h.2.1.symm, h.1⟩, fun h => ?_⟩
      exact ⟨h.2.2, h.2.1.symm, h.1.symm⟩
  | _ =>
      rw [dependentsOf, relations_apply_of_ne (by simp) (by simp)]
      exact (or_iff_right id).symm

lemma Registry.mem_dependentsOf_perform_iff (g : Registry S) (t : Task S) {dependent : Name} :
    dependent ∈ (g.perform t).registry.dependentsOf d ↔
      dependent ∈ g.dependentsOf d ∧ ¬ (Deed.task t).ReleasesDependent dependent d := by
  cases t with
  | destroy name =>
      simp only [perform, beginDestroy, dependentsOf, Relations.takeDependents,
        NameGraph.successors_erase, Deed.ReleasesDependent]
      by_cases hname : d = name
      · simp [hname]
      · simp [hname, Ne.symm hname]
  | forget name =>
      simp only [perform, forget, dependentsOf, Relations.scrub, NameGraph.successors_unlinkAll,
        List.mem_filter, decide_eq_true_iff, Deed.ReleasesDependent]
      exact and_congr_right' (not_congr eq_comm)
  | reset => exact iff_of_false List.not_mem_nil fun h => h.2 trivial
  | _ => exact (and_iff_left id).symm

/-- That a name is recorded as a dependent is brought about and undone by these deeds. -/
lemma switched_dependents (dependent d : Name) :
    Switched (S := S) (fun g => dependent ∈ g.dependentsOf d)
      (fun g deed => deed.RecordsDependent g dependent d)
      (fun deed => deed.ReleasesDependent dependent d) where
  effective {g deed} h := by
    cases deed with
    | update | task | leave | expose => trivial
    | _ => exact h.elim id id
  apart {g deed} h := by
    cases deed with
    | update => exact id
    | _ => exact h.elim
  law {m m' deed} hmoves := by
    cases deed with
    | update u =>
        cases hmoves
        exact (m.registry.mem_dependentsOf_apply_iff u).trans
          (or_congr_right (and_iff_left id).symm)
    | task t =>
        cases hmoves
        exact (m.registry.mem_dependentsOf_perform_iff t).trans (or_iff_right id).symm
    | _ =>
        have hsame := (hmoves.agreesOutside (by simp) (by simp)).relations
        rw [Registry.dependentsOf, hsame]
        exact ((or_iff_right id).trans (and_iff_left id)).symm

/-! ### Tasks that are left -/

/-- Before any task that forgets the name comes one that destroys it or its contents. -/
inductive Guarded (name : Name) : List (Task S) → Prop
  | nil : Guarded name []
  | destroy (rest : List (Task S)) : Guarded name (.destroy name :: rest)
  | contents (rest : List (Task S)) : Guarded name (.destroyContents name :: rest)
  | other {t : Task S} {rest : List (Task S)} (ht : t ≠ .forget name) (h : Guarded name rest) :
      Guarded name (t :: rest)

namespace Guarded

variable {name : Name} {t : Task S} {tasks rest : List (Task S)}

lemma append (hahead : Task.forget name ∉ tasks) (h : Guarded name rest) :
    Guarded name (tasks ++ rest) := by
  induction tasks with
  | nil => exact h
  | cons t tasks ih =>
      rw [List.mem_cons, not_or] at hahead
      exact .other (Ne.symm hahead.1) (ih hahead.2)

lemma of_not_mem (h : Task.forget name ∉ tasks) : Guarded name tasks :=
  tasks.append_nil ▸ append h .nil

/-- The first task does not forget the name. -/
lemma ne_forget (h : Guarded name (t :: rest)) : t ≠ .forget name := by
  cases h with
  | destroy | contents => simp
  | other ht _ => exact ht

lemma of_cons (h : Guarded name (t :: rest)) (hdestroy : t ≠ .destroy name)
    (hcontents : t ≠ .destroyContents name) : Guarded name rest := by
  cases h with
  | destroy => exact absurd rfl hdestroy
  | contents => exact absurd rfl hcontents
  | other _ h => exact h

end Guarded

/-- The container is recorded as a dependent of `d`, or the tasks that are left destroy its
contents. Those that forget it come later. -/
structure Relations.Secured (g : Relations) (pending : List (Task S)) (outer d : Name) : Prop where
  dependent : outer ∈ g.dependents.successors d ∨
    .destroy outer ∈ pending ∨ .destroyContents outer ∈ pending
  guarded : Guarded outer pending

namespace Relations.Secured

variable {pending rest : List (Task S)}

/-- An operation takes no dependent away. -/
lemma apply {g : Registry S} (h : g.relations.Secured pending outer d) (u : Update S) :
    (g.apply u).registry.relations.Secured pending outer d :=
  ⟨h.dependent.imp_left (Registry.mem_dependentsOf_apply · u), h.guarded⟩

/-- More tasks that forget nothing may come first. -/
lemma append {g : Relations} (h : g.Secured pending outer d) {ahead : List (Task S)}
    (hahead : Task.forget outer ∉ ahead) : g.Secured (ahead ++ pending) outer d :=
  ⟨h.dependent.imp_right (Or.imp (List.mem_append_right ahead) (List.mem_append_right ahead)),
    h.guarded.append hahead⟩

/-- A task that is about another name may be replaced by others that do not forget the container. -/
lemma replace {g : Relations} {t : Task S} (h : g.Secured (t :: rest) outer d)
    (hdestroy : t ≠ .destroy outer) (hcontents : t ≠ .destroyContents outer)
    {ahead : List (Task S)} (hahead : Task.forget outer ∉ ahead) :
    g.Secured (ahead ++ rest) outer d := by
  refine append ⟨h.dependent.imp_right (Or.imp (fun hmem => ?_) fun hmem => ?_),
    h.guarded.of_cons hdestroy hcontents⟩ hahead
  · exact (List.mem_cons.mp hmem).resolve_left hdestroy.symm
  · exact (List.mem_cons.mp hmem).resolve_left hcontents.symm

/-- The destruction of the container comes to its contents before the end. -/
lemma perform_destroy_self (g : Registry S) :
    (g.perform (.destroy outer)).registry.relations.Secured
      ((g.perform (.destroy outer)).answer ++ rest) outer d := by
  have hanswer : (g.perform (.destroy outer)).answer ++ rest =
      ((g.dependentsOf outer).map Task.destroy ++
        (g.disposers.get? outer).toList.map (Task.dispose outer)) ++
      .destroyContents outer :: .forget outer :: rest := by
    simp [Registry.perform, Registry.beginDestroy]
  rw [hanswer]
  refine ⟨Or.inr (Or.inr ?_), .append (by simp) (.contents _)⟩
  exact List.mem_append_right _ List.mem_cons_self

/-- The destruction of another name takes its own dependents away, and destroys them first. -/
lemma perform_destroy_of_ne {g : Registry S} {name : Name}
    (h : g.relations.Secured (.destroy name :: rest) outer d) (hname : name ≠ outer) :
    (g.perform (.destroy name)).registry.relations.Secured
      ((g.perform (.destroy name)).answer ++ rest) outer d := by
  have hahead : Task.forget outer ∉ (g.perform (.destroy name)).answer := by
    simp [Registry.perform, Registry.beginDestroy, Ne.symm hname]
  have hlater := h.replace (by simpa using hname) (by simp) hahead
  refine ⟨?_, hlater.guarded⟩
  rcases hlater.dependent with hmem | hleft
  · by_cases hd : d = name
    · subst hd
      have hfirst : Task.destroy outer ∈ (g.dependentsOf d).map (Task.destroy (S := S)) :=
        List.mem_map_of_mem hmem
      exact Or.inr (Or.inl (List.mem_append_left _ (List.mem_append_left _
        (List.mem_append_left _ hfirst))))
    · left
      simp only [Registry.perform, Registry.beginDestroy, Relations.takeDependents,
        NameGraph.successors_erase, if_neg hd]
      exact hmem
  · exact Or.inr hleft

/-- The destruction of what another name contains takes no dependent away. -/
lemma perform_destroyContents {g : Registry S} {name : Name}
    (h : g.relations.Secured (.destroyContents name :: rest) outer d) (hname : name ≠ outer) :
    (g.perform (.destroyContents name)).registry.relations.Secured
      ((g.perform (.destroyContents name)).answer ++ rest) outer d := by
  have hahead : Task.forget outer ∉ (g.perform (.destroyContents name)).answer := by
    simp [Registry.perform, Registry.openContents]
  have hlater := h.replace (by simp) (by simpa using hname) hahead
  exact ⟨hlater.dependent, hlater.guarded⟩

/-- The name that is forgotten is not the container, which stays a dependent. -/
lemma perform_forget {g : Registry S} {name : Name}
    (h : g.relations.Secured (.forget name :: rest) outer d) :
    (g.perform (.forget name)).registry.relations.Secured
      ((g.perform (.forget name)).answer ++ rest) outer d := by
  have hname : outer ≠ name := by
    rintro rfl
    exact h.guarded.ne_forget rfl
  have hahead : Task.forget outer ∉ (g.perform (.forget name)).answer := List.not_mem_nil
  have hlater := h.replace (by simp) (by simp) hahead
  refine ⟨hlater.dependent.imp_left fun hmem => ?_, hlater.guarded⟩
  simp only [Registry.perform, Registry.forget, Relations.scrub, NameGraph.successors_unlinkAll,
    List.mem_filter, decide_eq_true_iff]
  exact ⟨hmem, hname⟩

/-- A task takes the container away only if it is destroyed after that, or if the pair is not known
any more. -/
lemma perform {g : Registry S} {t : Task S} (h : g.relations.Secured (t :: rest) outer d)
    (hknown : inner ∈ (g.perform t).registry.containedIn outer) :
    (g.perform t).registry.relations.Secured ((g.perform t).answer ++ rest) outer d := by
  cases t with
  | destroy name =>
      by_cases hname : name = outer
      · exact hname ▸ perform_destroy_self g
      · exact h.perform_destroy_of_ne hname
  | dispose name disposer => exact h.replace (by simp) (by simp) List.not_mem_nil
  | destroyContents name =>
      -- the pairs of a name whose contents are destroyed are not known any more
      refine h.perform_destroyContents ?_
      rintro rfl
      simp only [Registry.perform, Registry.openContents, Registry.containedIn,
        Relations.takeContents, NameGraph.successors_erase, if_pos] at hknown
      cases hknown
  | forget name => exact h.perform_forget
  | destroyAll =>
      exact h.replace (by simp) (by simp) (by simp [Registry.perform, Registry.beginDestroyAll])
  | reset => cases hknown

end Relations.Secured

/-! ### Runs -/

/-- A pair that a step makes known is recorded by it. -/
lemma Config.newlyContains_of_mem_step {c : Config S α}
    (hbefore : inner ∉ (c.world.registry r).containedIn outer)
    (hafter : inner ∈ ((step caller c).world.registry r).containedIn outer) :
    c.NewlyContains r outer inner := by
  obtain ⟨deed, hdoes, hmoves⟩ := step_moves caller r c
  have hknown : inner ∈ ((step caller c).moment r).registry.containedIn outer := hafter
  refine ⟨?_, hbefore⟩
  cases deed with
  | update u =>
      rw [hdoes.moment_update caller] at hknown
      obtain rfl := (Registry.mem_containedIn_apply hknown).resolve_right hbefore
      exact hdoes
  | task t =>
      rw [hdoes.moment_task caller] at hknown
      exact absurd (Registry.mem_containedIn_perform hknown) hbefore
  | _ =>
      have hsame := (hmoves.agreesOutside (by simp) (by simp)).relations
      rw [Registry.containedIn, hsame] at hknown
      exact absurd hknown hbefore

/-- A container stays secured over a step after which the pair is still known. -/
lemma secured_step {c : Config S α}
    (h : (c.world.registry r).relations.Secured (c.pending r) outer d)
    (hknown : inner ∈ ((step caller c).world.registry r).containedIn outer) :
    ((step caller c).world.registry r).relations.Secured ((step caller c).pending r) outer d := by
  by_cases htask : ∃ t, c.Does r (.task t)
  · obtain ⟨t, ht⟩ := htask
    obtain ⟨rest, hpending, hnext⟩ := ht.pending_task caller
    have hregistry : (step caller c).world.registry r =
        ((c.world.registry r).perform t).registry :=
      congrArg Moment.registry (ht.moment_task caller)
    rw [hpending] at h
    rw [hregistry] at hknown
    rw [hregistry, hnext]
    exact h.perform hknown
  · rw [not_exists] at htask
    obtain ⟨deed, hdoes, hmoves⟩ := step_moves caller r c
    have hkept : ((step caller c).world.registry r).relations.Secured (c.pending r) outer d := by
      rcases hmoves.apply_or_relations_eq fun t ht => htask t (ht ▸ hdoes) with ⟨u, hu⟩ | hsame
      · rw [show (step caller c).world.registry r = _ from hu]
        exact h.apply u
      · rw [show ((step caller c).world.registry r).relations = _ from hsame]
        exact h
    obtain ⟨ahead, hnext, hroots⟩ := exists_pending_step caller htask
    rw [hnext]
    exact hkept.append fun hmem => by simpa [Task.isRoot] using hroots _ hmem

/-- A pair that is known was recorded at some step, and has been known since. -/
lemma exists_newlyContains {c : Config S α} {k : ℕ}
    (hstart : inner ∉ (c.world.registry r).containedIn outer)
    (hknown : inner ∈ ((run caller k c).world.registry r).containedIn outer) :
    ∃ i < k, (run caller i c).NewlyContains r outer inner ∧
      ∀ l, i < l → l ≤ k → inner ∈ ((run caller l c).world.registry r).containedIn outer := by
  induction k with
  | zero => exact absurd hknown hstart
  | succ k ih =>
      by_cases hbefore : inner ∈ ((run caller k c).world.registry r).containedIn outer
      · obtain ⟨i, hik, hnew, hsince⟩ := ih hbefore
        refine ⟨i, Nat.lt_succ_of_lt hik, hnew, fun l hil hlk => ?_⟩
        rcases Nat.le_succ_iff.mp hlk with hlk | rfl
        · exact hsince l hil hlk
        · exact hknown
      · refine ⟨k, Nat.lt_succ_self k, ?_, fun l hkl hlk => ?_⟩
        · rw [run_succ'] at hknown
          exact Config.newlyContains_of_mem_step hbefore hknown
        · obtain rfl : l = k + 1 := by omega
          exact hknown

/-- A container is secured by the step that records a new pair, unless it is to be forgotten. -/
lemma Config.NewlyContains.secured_step {c : Config S α} (h : c.NewlyContains r outer inner)
    (hlive : Task.forget outer ∉ c.pending r) :
    ((step caller c).world.registry r).relations.Secured ((step caller c).pending r) outer
      ((c.world.registry r).canonical inner) := by
  obtain ⟨hdoes, hnew⟩ := h
  have hregistry : (step caller c).world.registry r =
      ((c.world.registry r).apply (.contain outer inner)).registry :=
    congrArg Moment.registry (hdoes.moment_update caller)
  rw [hregistry, hdoes.pending_update caller]
  exact ⟨Or.inl (Registry.mem_dependentsOf_apply_contain.mpr (Or.inl ⟨hnew, rfl, rfl⟩)),
    .of_not_mem hlive⟩

/-- While a pair is known, its container stays a dependent of what the contained name stood for when
the pair was recorded, outside of destructions. -/
lemma mem_dependentsOf_of_newlyContains {c : Config S α} {i k : ℕ} (hik : i < k)
    (hnew : (run caller i c).NewlyContains r outer inner)
    (hlive : Task.forget outer ∉ (run caller i c).pending r)
    (hsince : ∀ l, i < l → l ≤ k → inner ∈ ((run caller l c).world.registry r).containedIn outer)
    (hdone : (run caller k c).pending r = []) :
    outer ∈ ((run caller k c).world.registry r).dependentsOf
      (((run caller i c).world.registry r).canonical inner) := by
  have hsecured : ((run caller k c).world.registry r).relations.Secured ((run caller k c).pending r)
      outer (((run caller i c).world.registry r).canonical inner) := by
    refine run_preserves (fun e => (e.world.registry r).relations.Secured (e.pending r) outer
      (((run caller i c).world.registry r).canonical inner)) c (i := i + 1) ?_
      (fun l hil hlk hl => ?_) k hik le_rfl
    · rw [run_succ']
      exact hnew.secured_step hlive
    · have hnext := hsince (l + 1) (by omega) hlk
      rw [run_succ'] at hnext
      exact secured_step hl hnext
  rw [hdone] at hsecured
  exact hsecured.dependent.resolve_right (by simp)

/-- **What a recorded containment comes to**: right after it is recorded, the pair is known. The
container is then a dependent of what the contained name stands for exactly if it was recorded under
that name and not taken out since, and it is found as such then. Under the name that the contained
name stood for when the pair was recorded as a new one, the container is a dependent in any case,
outside of destructions. So the pair implies the dependency if the name still stands for the
same. -/
theorem containment_dependency (r : S.Index) (s : Script S α) (w : World S)
    (hstart : (w.registry r).relations = {}) (k : ℕ) (outer inner : Name)
    (hcall : (run caller k (Config.start s w)).Does r (.update (.contain outer inner))) :
    let c : ℕ → Config S α := fun l => run caller l (Config.start s w)
    let g : ℕ → Registry S := fun l => (c l).world.registry r
    inner ∈ (g (k + 1)).containedIn outer ∧
    (outer ∈ (g (k + 1)).dependentsOf ((g (k + 1)).canonical inner) ↔
      ∃ i ≤ k, (c i).RecordsDependent r outer ((g (k + 1)).canonical inner) ∧
        ∀ l, i < l → l ≤ k → ¬ (c l).ReleasesDependent r outer ((g (k + 1)).canonical inner)) ∧
    (outer ∈ (g (k + 1)).dependentsOf ((g (k + 1)).canonical inner) →
      (g (k + 1)).isDependent inner outer = true) ∧
    ∃ i ≤ k, (c i).NewlyContains r outer inner ∧
      (∀ l, i < l → l ≤ k + 1 → inner ∈ (g l).containedIn outer) ∧
      (.forget outer ∉ (c i).pending r → (c k).pending r = [] →
        outer ∈ (g (k + 1)).dependentsOf ((g i).canonical inner)) := by
  intro c g
  have hstep : ∀ l, c (l + 1) = step caller (c l) := fun l => run_succ' caller l _
  have hknown : inner ∈ (g (k + 1)).containedIn outer := by
    have hregistry : g (k + 1) = ((g k).apply (.contain outer inner)).registry := by
      show (c (k + 1)).world.registry r = _
      rw [hstep]
      exact congrArg Moment.registry (hcall.moment_update caller)
    rw [hregistry]
    exact Registry.mem_containedIn_contain.mpr (Or.inl ⟨rfl, rfl⟩)
  refine ⟨hknown, ?_, Registry.isDependent_of_mem, ?_⟩
  · have hlaw := run_holds_iff
      (fun d => outer ∈ (d.world.registry r).dependentsOf ((g (k + 1)).canonical inner))
      (Config.RecordsDependent r outer ((g (k + 1)).canonical inner))
      (Config.ReleasesDependent r outer ((g (k + 1)).canonical inner))
      (fun _ => (switched_dependents outer _).step_iff caller) (Config.start s w) (k + 1)
    have hnone : outer ∉ (w.registry r).dependentsOf ((g (k + 1)).canonical inner) := by
      rw [Registry.dependentsOf, hstart]
      exact List.not_mem_nil
    rw [or_iff_right fun h => hnone h.1] at hlaw
    simp only [Nat.lt_succ_iff] at hlaw
    exact hlaw
  · have hnone : inner ∉ ((c 0).world.registry r).containedIn outer := by
      show inner ∉ (w.registry r).containedIn outer
      rw [Registry.containedIn, hstart]
      exact List.not_mem_nil
    obtain ⟨i, hik, hnew, hsince⟩ := exists_newlyContains hnone hknown
    refine ⟨i, Nat.le_of_lt_succ hik, hnew, hsince, fun hlive hdone => ?_⟩
    have hpending : (c (k + 1)).pending r = [] := by
      rw [hstep, hcall.pending_update caller]
      exact hdone
    exact mem_dependentsOf_of_newlyContains hik hnew hlive hsince hpending

/-! ### Names that become aliases -/

/-- The data source has an alias, under which the service contains it. The data source is destroyed,
and then the containment is recorded twice. -/
def renewing : Script bare Unit :=
  .call bareIndex (.registerAlias "dataSource" "ds") fun _ =>
    .call bareIndex (.contain "service" "ds") fun _ =>
      .tearDown bareIndex "dataSource" <|
        .call bareIndex (.contain "service" "ds") fun _ =>
          .call bareIndex (.contain "service" "ds") fun _ => .done ()

/-- The run of the script. -/
def renewingRun (k : ℕ) : Config bare Unit :=
  run bareCaller k (Config.start renewing (Registry.alone {}))

/-- The destruction takes the pair out with its dependency. It is recorded again as a new one, and
the last call finds it known, with the service still a dependent of what its name stands for. -/
theorem containment_dependency_renewed :
    ((Registry.alone {}).registry bareIndex).relations = {} ∧
    ((renewingRun 13).world.registry bareIndex).containedIn "service" = [] ∧
    (renewingRun 14).Does bareIndex (.update (.contain "service" "ds")) ∧
    ((renewingRun 14).world.registry bareIndex).containedIn "service" = ["ds"] ∧
    (renewingRun 13).pending bareIndex = [] ∧ (renewingRun 14).pending bareIndex = [] ∧
    ((renewingRun 15).world.registry bareIndex).canonical "ds" = "dataSource" ∧
    "service" ∈ ((renewingRun 15).world.registry bareIndex).dependentsOf "dataSource" ∧
    ((renewingRun 15).world.registry bareIndex).isDependent "ds" "service" = true := by
  have hstart : ((Registry.alone {}).registry bareIndex).relations = {} := rfl
  have hcall : (renewingRun 14).Does bareIndex (.update (.contain "service" "ds")) := .update _
  have hgone : ((renewingRun 13).world.registry bareIndex).containedIn "service" = [] := by
    decide +kernel
  have hknown : ((renewingRun 14).world.registry bareIndex).containedIn "service" = ["ds"] := by
    decide +kernel
  have hbefore : ((renewingRun 13).world.registry bareIndex).canonical "ds" = "dataSource" := by
    decide +kernel
  have hafter : ((renewingRun 15).world.registry bareIndex).canonical "ds" = "dataSource" := by
    decide +kernel
  have hlive : (renewingRun 13).pending bareIndex = [] := rfl
  have hdone : (renewingRun 14).pending bareIndex = [] := rfl
  obtain ⟨-, -, hfound, i, hi, ⟨-, hnew⟩, hsince, hdependent⟩ :=
    @containment_dependency bare Unit bareCaller bareIndex renewing (Registry.alone {}) hstart 14
      "service" "ds" hcall
  have hlast : i = 13 := by
    rcases Nat.lt_trichotomy i 13 with hlt | heq | hgt
    · have hmem := hsince 13 hlt (by decide)
      exact absurd (hgone ▸ hmem) List.not_mem_nil
    · exact heq
    · obtain rfl : i = 14 := by omega
      exact absurd (hknown.symm ▸ List.mem_singleton_self _) hnew
  subst hlast
  have hservice : "service" ∈ ((renewingRun 15).world.registry bareIndex).dependentsOf
      (((renewingRun 13).world.registry bareIndex).canonical "ds") :=
    hdependent (hlive.symm ▸ List.not_mem_nil) hdone
  rw [hbefore] at hservice
  exact ⟨hstart, hgone, hcall, hknown, hlive, hdone, hafter, hservice,
    hfound (hafter.symm ▸ hservice)⟩

/-- The service contains a name that becomes an alias of the data source, and the containment is
recorded again. -/
def relabeling : Script bare Unit :=
  .call bareIndex (.contain "service" "ds") fun _ =>
    .call bareIndex (.registerAlias "dataSource" "ds") fun _ =>
      .call bareIndex (.contain "service" "ds") fun _ => .done ()

/-- The run of the script. -/
def relabelingRun (k : ℕ) : Config bare Unit :=
  run bareCaller k (Config.start relabeling (Registry.alone {}))

/-- The pair is known, so the dependency is not recorded under the name that it stands for now. -/
theorem containment_relabeled :
    (relabelingRun 2).Does bareIndex (.update (.contain "service" "ds")) ∧
    (relabelingRun 3).result? = some () ∧
    ((relabelingRun 3).world.registry bareIndex).containedIn "service" = ["ds"] ∧
    ((relabelingRun 3).world.registry bareIndex).canonical "ds" = "dataSource" ∧
    ((relabelingRun 3).world.registry bareIndex).dependentsOf "dataSource" = [] ∧
    ((relabelingRun 3).world.registry bareIndex).isDependent "ds" "service" = false :=
  ⟨.update _, rfl, by decide +kernel, by decide +kernel, by decide +kernel, by decide +kernel⟩

end InstanceRegistry
