import InstanceRegistry.Proofs.Teardown.Inverse
import InstanceRegistry.Proofs.Teardown.Reach

/-!
What the destruction of a name leaves of a registry. The names that it reaches are forgotten in all
tables, and everything else stays as it was, except that they are gone from the lists of dependents.

* `NameMap.without`: a map without some names, in the same order;
* `Progress.Remains`: the tables in the middle of a destruction, apart from the dependents;
* `Progress.Closes`: a name that is opened is emptied and forgotten in the end;
* `Clears.remains`: the registry at the end, read off the registry at the beginning;
* `Registry.Forgets`: a registry without some names, which leave no trace;
* `destroy_forgets`: the destruction of a name, at any moment of a run outside of destructions;
* `destroy_forgets_retiring`: a name that is destroyed with its container and with what depends on
  that, next to names that stay.
-/

namespace InstanceRegistry

open Relation (ReflTransGen)

variable {S : Setup} {α : Type} {r : S.Index}

/-! ### Maps without some names -/

namespace NameMap

variable {β : Type}

/-- Drops some names; the rest keeps its order. -/
def without (m : NameMap β) (names : List Name) : NameMap β :=
  ⟨m.entries.filter fun entry => entry.1 ∉ names,
    m.names_nodup.sublist (List.filter_sublist.map Prod.fst)⟩

@[simp] lemma without_nil (m : NameMap β) : m.without [] = m := by
  obtain ⟨entries, hnodup⟩ := m
  simp [without]

/-- One more name is dropped. -/
lemma erase_without (m : NameMap β) (names : List Name) (name : Name) :
    (m.without names).erase name = m.without (name :: names) := by
  have hentries : (m.entries.filter fun entry => entry.1 ∉ names).filter
      (fun entry => entry.1 ≠ name) = m.entries.filter fun entry => entry.1 ∉ name :: names := by
    rw [List.filter_filter]
    refine List.filter_congr fun entry _ => ?_
    simp
  exact NameMap.mk.injEq .. |>.mpr hentries

lemma names_without (m : NameMap β) (names : List Name) :
    (m.without names).names = m.names.filter (· ∉ names) := by
  simp only [NameMap.names, without, List.filter_map]
  rfl

lemma get?_without (m : NameMap β) (names : List Name) (name : Name) :
    (m.without names).get? name = if name ∈ names then none else m.get? name := by
  induction names with
  | nil => simp
  | cons first rest ih =>
      rw [← erase_without, get?_erase, ih]
      by_cases hfirst : name = first <;> simp [hfirst]

end NameMap

lemma NameGraph.successors_without (g : NameGraph) (names : List Name) (name : Name) :
    successors (NameMap.without g names) name = if name ∈ names then [] else g.successors name := by
  rw [successors_eq, NameMap.get?_without]
  by_cases hname : name ∈ names
  · simp [hname]
  · rw [if_neg hname, if_neg hname, successors_eq]

/-! ### In the middle of a destruction -/

/-- What a destruction has left of the tables of `g` in `h`, apart from the dependents. Whatever is
not about the names that it destroys stays. -/
structure Progress.Remains (p : Progress) (g h : Registry S) : Prop where
  objects : h.objects = g.objects.without p.opened
  earlyFactories : h.earlyFactories = g.earlyFactories.without p.opened
  earlyReferences : h.earlyReferences = g.earlyReferences.without p.opened
  known : h.known = g.known.without p.opened
  disposers : h.disposers = g.disposers.without p.opened
  contents : h.relations.contents = NameMap.without g.relations.contents p.emptied
  dependencies : h.relations.dependencies = NameMap.without g.relations.dependencies p.forgotten
  suppressed : h.suppressed = g.suppressed
  inDestruction : h.inDestruction = g.inDestruction
  inCreation : h.inCreation = g.inCreation
  excluded : h.excluded = g.excluded
  aliases : h.aliases = g.aliases
  observer : h.observer = g.observer

/-- The names that are emptied have been opened, and those that have been opened are forgotten by
some task, unless they are forgotten already. -/
structure Progress.Closes (p : Progress) (tasks : List (Task S)) : Prop where
  emptied : ∀ a ∈ p.emptied, a ∈ p.opened
  contents : ∀ a, .destroyContents a ∈ tasks → a ∈ p.opened
  forgotten : ∀ a ∈ p.opened, a ∈ p.forgotten ∨ .forget a ∈ tasks

namespace Progress

variable {p : Progress} {g h : Registry S} {task : Task S} {rest : List (Task S)}

lemma Remains.start (g : Registry S) : Remains {} g g := by
  constructor <;> simp

/-- A task about a name takes no more than that name out of the tables. -/
lemma Remains.perform (hr : p.Remains g h) (htask : task.subject.isSome) :
    (p.after task).Remains g (h.perform task).registry := by
  cases task with
  | destroy n =>
      exact { hr with
        objects := (congrArg (·.erase n) hr.objects).trans (NameMap.erase_without ..)
        earlyFactories := (congrArg (·.erase n) hr.earlyFactories).trans (NameMap.erase_without ..)
        earlyReferences :=
          (congrArg (·.erase n) hr.earlyReferences).trans (NameMap.erase_without ..)
        known := (congrArg (NameMap.erase · n) hr.known).trans (NameMap.erase_without ..)
        disposers := (congrArg (·.erase n) hr.disposers).trans (NameMap.erase_without ..) }
  | dispose n disposer => exact hr
  | destroyContents n =>
      exact { hr with
        contents := (congrArg (NameMap.erase · n) hr.contents).trans (NameMap.erase_without ..) }
  | forget n =>
      exact { hr with
        dependencies :=
          (congrArg (NameMap.erase · n) hr.dependencies).trans (NameMap.erase_without ..) }
  | destroyAll => cases htask
  | reset => cases htask

lemma Closes.start (roots : List Name) : Closes {} (roots.map (Task.destroy (S := S))) := by
  constructor <;> simp

lemma Closes.step (hc : p.Closes (task :: rest)) :
    (p.after task).Closes (p.ahead g task ++ rest) where
  emptied a ha := by
    rw [mem_opened_after]
    rcases mem_emptied_after.mp ha with rfl | ha
    · exact Or.inr (hc.contents a List.mem_cons_self)
    · exact Or.inr (hc.emptied a ha)
  contents a ha := by
    rw [mem_opened_after]
    refine (List.mem_append.mp ha).imp (fun ha => ?_) fun ha => ?_
    · exact eq_destroy_of_mem_ahead ha (Or.inl rfl)
    · exact hc.contents a (List.mem_cons_of_mem _ ha)
  forgotten a ha := by
    rw [mem_forgotten_after, List.mem_append]
    rcases mem_opened_after.mp ha with rfl | ha
    · exact Or.inr (Or.inl (mem_ahead_destroy.mpr (Or.inr (Or.inr rfl))))
    · rcases hc.forgotten a ha with h | h
      · exact Or.inl (Or.inr h)
      · rcases List.mem_cons.mp h with h | h
        · exact Or.inl (Or.inl h.symm)
        · exact Or.inr (Or.inr h)

end Progress

/-- **What a destruction leaves, table by table.** The names that it reaches are opened, emptied and
forgotten, and the dependents and the dependencies are inverses of each other again. -/
theorem Clears.remains {g h : Registry S} {roots : List Name} {lines : List (Entry S)}
    (hpaired : g.relations.Paired ([] : List (Task S)))
    (hc : Clears r g (roots.map Task.destroy) lines h) :
    ∃ p : Progress, p.Remains g h ∧ p.Describes g h ∧
      h.relations.Paired ([] : List (Task S)) ∧
      (∀ a, a ∈ p.emptied ↔ a ∈ p.opened) ∧ (∀ a, a ∈ p.forgotten ↔ a ∈ p.opened) ∧
      ∀ a, a ∈ p.opened ↔ ∃ n ∈ roots, ReflTransGen g.TakesAlong n a := by
  have hall : ∃ p : Progress, p.Describes g h ∧
      Covers g roots p [] (lines.filterMap (Entry.disposal? r)) ∧
        p.Closes ([] : List (Task S)) ∧ p.Remains g h ∧
        h.relations.Paired ([] : List (Task S)) := by
    refine hc.progress_registry (fun p h tasks log =>
      Covers g roots p tasks log ∧ p.Closes tasks ∧ p.Remains g h ∧ h.relations.Paired tasks)
      ⟨Covers.start g roots, .start roots, .start g, hpaired.mono (by simp)⟩ ?_
    rintro p h task rest log htask hd ⟨hcov, hcloses, hremains, hpaired⟩
    obtain ⟨name, hname⟩ := Option.isSome_iff_exists.mp htask
    refine ⟨?_, ?_, hremains.perform htask, hpaired.perform⟩
    · rw [hd.answer_perform hname, Registry.filterMap_disposal?_taskLines]
      exact hcov.step
    · rw [hd.answer_perform hname]
      exact hcloses.step
  obtain ⟨p, hd, hcov, hcloses, hremains, hend⟩ := hall
  refine ⟨p, hremains, hd, hend, fun a => ⟨hcloses.emptied a, fun ha => ?_⟩,
    fun a => ⟨hcov.forgotten a, fun ha => ?_⟩, fun a => hcov.mem_opened_iff⟩
  · exact (hcov.contents a ha).resolve_right List.not_mem_nil
  · exact (hcloses.forgotten a ha).resolve_right List.not_mem_nil

/-! ### Names without a trace -/

/-- The registry `h` is `g` without the destroyed names, which are left in no table of it, neither
as keys nor among dependents and dependencies. Whatever is not about them is as in `g`. -/
structure Registry.Forgets (g : Registry S) (destroyed : List Name) (h : Registry S) : Prop where
  object : ∀ a, h.object? a = if a ∈ destroyed then none else g.object? a
  earlyFactory : ∀ a, h.earlyFactories.get? a =
    if a ∈ destroyed then none else g.earlyFactories.get? a
  earlyReference : ∀ a, h.earlyReferences.get? a =
    if a ∈ destroyed then none else g.earlyReferences.get? a
  disposer : ∀ a, h.disposers.get? a = if a ∈ destroyed then none else g.disposers.get? a
  containedIn : ∀ a, h.containedIn a = if a ∈ destroyed then [] else g.containedIn a
  dependenciesOf : ∀ a, h.dependenciesOf a = if a ∈ destroyed then [] else g.dependenciesOf a
  dependentsOf : ∀ a, h.dependentsOf a =
    if a ∈ destroyed then [] else (g.dependentsOf a).filter (· ∉ destroyed)
  hasDependents : ∀ a, h.hasDependents a = true ↔ h.dependentsOf a ≠ []
  /-- No name has a destroyed one among its dependents or dependencies. -/
  unlisted : ∀ a ∈ destroyed, ∀ b, a ∉ h.dependentsOf b ∧ a ∉ h.dependenciesOf b
  /-- The names that stay keep their order. -/
  knownNames : h.knownNames = g.knownNames.filter (· ∉ destroyed)
  disposerNames : h.disposerNames = g.disposerNames.filter (· ∉ destroyed)
  aliases : h.aliases = g.aliases
  inCreation : h.inCreation = g.inCreation
  excluded : h.excluded = g.excluded
  suppressed : h.suppressed = g.suppressed
  inDestruction : h.inDestruction = g.inDestruction
  observer : h.observer = g.observer

/-- Tables without the names that were opened, emptied and forgotten show no trace of them. -/
lemma Progress.Remains.forgets {p : Progress} {g h : Registry S} (hr : p.Remains g h)
    (hd : p.Describes g h) (hpaired : h.relations.Paired ([] : List (Task S)))
    (hemptied : ∀ a, a ∈ p.emptied ↔ a ∈ p.opened)
    (hforgotten : ∀ a, a ∈ p.forgotten ↔ a ∈ p.opened) : g.Forgets p.opened h := by
  have hdependents : ∀ a, h.dependentsOf a =
      if a ∈ p.opened then [] else (g.dependentsOf a).filter (· ∉ p.opened) := by
    intro a
    simpa only [hforgotten] using hd.dependents a
  have hlost : ∀ a ∈ p.opened, h.dependentsOf a = [] := fun a ha => by
    rw [hdependents, if_pos ha]
  constructor
  case object =>
    intro a
    rw [Registry.object?, hr.objects, NameMap.get?_without, Registry.object?]
  case earlyFactory =>
    intro a
    rw [hr.earlyFactories, NameMap.get?_without]
  case earlyReference =>
    intro a
    rw [hr.earlyReferences, NameMap.get?_without]
  case disposer => exact hd.disposer
  case containedIn =>
    intro a
    simpa only [hemptied] using hd.contents a
  case dependenciesOf =>
    intro a
    rw [Registry.dependenciesOf, hr.dependencies, NameGraph.successors_without]
    simp only [hforgotten, Registry.dependenciesOf]
  case dependentsOf => exact hdependents
  case hasDependents => exact fun a => decide_eq_true_iff.trans hpaired.trim.mem_iff
  case unlisted =>
    refine fun a ha b => ⟨fun hb => ?_, fun hb => ?_⟩
    · rw [hdependents] at hb
      split at hb
      · exact List.not_mem_nil hb
      · exact of_decide_eq_true (List.mem_filter.mp hb).2 ha
    · -- what depends on a destroyed name would be among its dependents
      rcases hpaired.dependent hb with hdep | hnil | hnil
      · have hnil : b ∈ h.dependentsOf a := hdep
        rw [hlost a ha] at hnil
        exact List.not_mem_nil hnil
      · exact List.not_mem_nil hnil
      · exact List.not_mem_nil hnil
  case knownNames => rw [Registry.knownNames, hr.known, NameMap.names_without]; rfl
  case disposerNames => rw [Registry.disposerNames, hr.disposers, NameMap.names_without]; rfl
  case aliases => exact hr.aliases
  case inCreation => exact hr.inCreation
  case excluded => exact hr.excluded
  case suppressed => exact hr.suppressed
  case inDestruction => exact hr.inDestruction
  case observer => exact hr.observer

/-! ### The destruction of a name -/

/-- **A destruction forgets what it destroys, and changes nothing else.** At any moment of a run at
which nothing is being destroyed, with any callers so far, the destruction of a name ends when the
disposers keep off the registry. It has destroyed the least set of names with that name that is
closed under dependents and contents. -/
theorem destroy_forgets (past caller : Caller S) (s : Script S α) (w : World S)
    (hstart : (w.registry r).relations = {}) (k : ℕ) {before : World S}
    (hbefore : (run past k (Config.start s w)).world = before)
    (hdone : (run past k (Config.start s w)).pending r = [])
    (hdisposers : ∀ d, KeepsOff caller r Entry.unseen (caller.disposer d))
    (hobserver : QuietlyObserved caller r Entry.unseen (before.registry r)) (n : Name) :
    ∃ (destroyed : List Name) (after : World S),
      IsLeast {names : Set Name | n ∈ names ∧ (before.registry r).Closed names}
        {a | a ∈ destroyed} ∧
      Ends caller (Script.destroy r n) before () after ∧
      (before.registry r).Forgets destroyed (after.registry r) := by
  have hpaired : (before.registry r).relations.Paired ([] : List (Task S)) := by
    rw [← hbefore, ← hdone]
    exact paired_of_run past s w hstart k
  have hs : SilentTeardown caller r (Entry.unseen (S := S)) :=
    ⟨hdisposers, fun _ _ => rfl, fun _ _ => rfl⟩
  obtain ⟨lines, h, after, hc, hends, hafter⟩ := hs.exists_ends_destroy n hobserver
  have hroots : Clears r (before.registry r) ([n].map Task.destroy) lines h := hc
  obtain ⟨p, hremains, hd, hend, hemptied, hforgotten, hopened⟩ := hroots.remains hpaired
  refine ⟨p.opened, after, ?_, hends, ?_⟩
  · have hreached : {a | a ∈ p.opened} =
        {a | ReflTransGen (before.registry r).TakesAlong n a} := by
      ext a
      simpa using hopened a
    rw [hreached]
    exact (before.registry r).isLeast_takesAlong n
  · rw [hafter.registry]
    exact hremains.forgets hd hend hemptied hforgotten

/-! ### Names that are destroyed next to names that stay -/

/-- A client depends on a container and, like the name apart, on a base. All but the container and
its content have disposers. -/
def retiring : Script bare Unit :=
  .call bareIndex (.onDestroy "base" ()) fun _ =>
    .call bareIndex (.onDestroy "client" ()) fun _ =>
      .call bareIndex (.onDestroy "apart" ()) fun _ =>
        .call bareIndex (.contain "outer" "inner") fun _ =>
          .call bareIndex (.depend "client" "outer") fun _ =>
            .call bareIndex (.depend "client" "base") fun _ =>
              .call bareIndex (.depend "apart" "base") fun _ => .done ()

/-- The world after these calls. -/
def retired : World bare := (run bareCaller 7 (Config.start retiring (Registry.alone {}))).world

/-- What the content takes along is destroyed and forgotten. The base has lost one of its two
dependents, and the name apart is as before. -/
theorem destroy_forgets_retiring :
    ((Registry.alone {}).registry bareIndex).relations = {} ∧
    (run bareCaller 7 (Config.start retiring (Registry.alone {}))).pending bareIndex = [] ∧
    (∀ d, KeepsOff bareCaller bareIndex Entry.unseen (bareCaller.disposer d)) ∧
    QuietlyObserved bareCaller bareIndex Entry.unseen (retired.registry bareIndex) ∧
    (retired.registry bareIndex).dependentsOf "base" = ["client", "apart"] ∧
    (retired.registry bareIndex).disposerNames = ["base", "client", "apart"] ∧
    ∃ after, Ends bareCaller (Script.destroy bareIndex "inner") retired () after ∧
      (after.registry bareIndex).dependentsOf "base" = ["apart"] ∧
      (after.registry bareIndex).disposerNames = ["base", "apart"] ∧
      (after.registry bareIndex).dependenciesOf "client" = [] ∧
      (after.registry bareIndex).dependenciesOf "apart" = ["base"] := by
  have hstart : ((Registry.alone {}).registry bareIndex).relations = {} := rfl
  have hdone : (run bareCaller 7 (Config.start retiring (Registry.alone {}))).pending bareIndex =
      [] := rfl
  have hdisposers : ∀ d : bare.Disposer,
      KeepsOff bareCaller bareIndex Entry.unseen (bareCaller.disposer d) :=
    fun _ => keepsOff_done _
  have hobserver : QuietlyObserved bareCaller bareIndex Entry.unseen
      (retired.registry bareIndex) := fun o => o.elim
  have hbase : (retired.registry bareIndex).dependentsOf "base" = ["client", "apart"] := by decide
  have hdisposable : (retired.registry bareIndex).disposerNames = ["base", "client", "apart"] := by
    decide
  have hinner : (retired.registry bareIndex).dependentsOf "inner" = ["outer"] := by decide
  have houter : (retired.registry bareIndex).dependentsOf "outer" = ["client"] := by decide
  have hcontent : (retired.registry bareIndex).containedIn "outer" = ["inner"] := by decide
  have hempty : (retired.registry bareIndex).containedIn "inner" = [] ∧
      (retired.registry bareIndex).dependentsOf "client" = [] ∧
      (retired.registry bareIndex).containedIn "client" = [] := by decide
  have hapart : (retired.registry bareIndex).dependenciesOf "apart" = ["base"] := by decide
  have hretired : (run bareCaller 7 (Config.start retiring (Registry.alone {}))).world = retired :=
    rfl
  obtain ⟨destroyed, after, hleast, hends, hforgets⟩ :=
    destroy_forgets bareCaller bareCaller retiring (Registry.alone {}) hstart 7 hretired hdone
      hdisposers hobserver "inner"
  have hclosed : (retired.registry bareIndex).Closed {"inner", "outer", "client"} := by
    rintro a (rfl | rfl | rfl)
    · simp [hinner, hempty]
    · simp [houter, hcontent]
    · simp [hempty]
  have hmem : ∀ a, a ∈ destroyed ↔ a = "inner" ∨ a = "outer" ∨ a = "client" := by
    refine fun a => ⟨fun ha => hleast.2 ⟨Or.inl rfl, hclosed⟩ ha, ?_⟩
    have ha : "inner" ∈ destroyed := hleast.1.1
    have hb : "outer" ∈ destroyed := (hleast.1.2 _ ha).1 _ (hinner ▸ List.mem_singleton_self _)
    have hc : "client" ∈ destroyed := (hleast.1.2 _ hb).1 _ (houter ▸ List.mem_singleton_self _)
    rintro (rfl | rfl | rfl) <;> assumption
  refine ⟨hstart, hdone, hdisposers, hobserver, hbase, hdisposable, after, hends, ?_, ?_, ?_, ?_⟩
  · rw [hforgets.dependentsOf, hbase]
    simp [hmem]
  · rw [hforgets.disposerNames, hdisposable]
    simp [hmem]
  · rw [hforgets.dependenciesOf, if_pos ((hmem _).mpr (by simp))]
  · rw [hforgets.dependenciesOf, if_neg (mt (hmem _).mp (by simp))]
    exact hapart

end InstanceRegistry
