import InstanceRegistry.Proofs.Alias.Registration
import InstanceRegistry.Proofs.Run.Pending
import InstanceRegistry.Proofs.Teardown.Progress

/-!
The events of a registry as a journal. Whoever hears of them can keep a copy of the aliases and of
the bound names, and the copy is right whenever no destruction is under way.

* `Replica`, `Replica.hear`, `Replica.replay`: the copy, and what an event changes in it;
* `Replica.Follows`: the copy of a registry with tasks left to do;
* `Replica.Follows.moves`, `Replica.Follows.perform`: the copy after a step;
* `Script.Silent`, `Config.Calm`: code that calls no registry; nothing but such code runs while a
  destruction is under way;
* `Config.Heard`: the observer is told of an event at once;
* `Faithful`: what every step of a run keeps;
* `journal_replays`: the journal of a run.
-/

namespace InstanceRegistry

variable {S : Setup} {α β : Type}

/-! ### The copy of a registry -/

/-- What the events of a registry tell of its aliases and of its bound names. -/
structure Replica where
  targets : NameMap Name := ∅
  bound : NameSet := ∅
  deriving DecidableEq

namespace Replica

/-- The copy after an event. An alias with another target than the event says cannot change its
target. -/
def hear (p : Replica) : Event → Option Replica
  | .aliasRegistered key name => some { p with targets := p.targets.insert key name }
  | .aliasRetargeted key previous name =>
    if p.targets.get? key = some previous then
      some { p with targets := p.targets.insert key name }
    else none
  | .aliasRemoved key => some { p with targets := p.targets.erase key }
  | .registered name | .created name => some { p with bound := p.bound.add name }
  | .removed name | .destroyed name => some { p with bound := p.bound.erase name }
  | .earlyReference _ | .destroyFailed .. | .destroyAll => some p

/-- The copy after some events. -/
def replay (p : Replica) (events : List Event) : Option Replica := events.foldlM hear p

@[simp] lemma replay_nil (p : Replica) : p.replay [] = some p := rfl

@[simp] lemma replay_singleton (p : Replica) (e : Event) : p.replay [e] = p.hear e := by
  simp [replay]

lemma replay_append {p p' : Replica} {events more : List Event} (h : p.replay events = some p') :
    p.replay (events ++ more) = p'.replay more := by
  rw [replay, List.foldlM_append, ← replay, h]
  rfl

/-- The copy of a registry with tasks left to do. It keeps the names that are to be forgotten. -/
structure Follows (p : Replica) (g : Registry S) (tasks : List (Task S)) : Prop where
  targets : p.targets = g.aliases.targets
  bound : ∀ m ∈ g.objects, m ∈ p.bound
  unbound : ∀ m ∈ p.bound, m ∈ g.objects ∨ .forget m ∈ tasks
  forgotten : ∀ m, .forget m ∈ tasks → m ∉ g.objects

/-- After the event of a change, the copy follows the registry as changed. -/
def FollowsAfter (p : Replica) (change : Registry.Change S β) (tasks : List (Task S)) : Prop :=
  ∃ p', p.replay change.event.toList = some p' ∧ p'.Follows change.registry tasks

namespace Follows

variable {p : Replica} {g g' : Registry S} {tasks rest : List (Task S)} {name : Name}

lemma congr (h : p.Follows g tasks) (hrest : ∀ m, .forget m ∈ rest ↔ .forget m ∈ tasks) :
    p.Follows g rest where
  targets := h.targets
  bound := h.bound
  unbound m hm := (h.unbound m hm).imp_right (hrest m).mpr
  forgotten m hm := h.forgotten m ((hrest m).mp hm)

/-- Nothing but the aliases and the finished objects matter. -/
lemma of_same (h : p.Follows g tasks) (haliases : g'.aliases = g.aliases)
    (hobjects : g'.objects = g.objects) : p.Follows g' tasks where
  targets := h.targets.trans (congrArg AliasTable.targets haliases.symm)
  bound := hobjects ▸ h.bound
  unbound := hobjects ▸ h.unbound
  forgotten := hobjects ▸ h.forgotten

/-- A name is bound when no destruction is under way. -/
lemma insert (h : p.Follows g []) {object : S.Object} (haliases : g'.aliases = g.aliases)
    (hobjects : g'.objects = g.objects.insert name object) :
    Follows { p with bound := p.bound.add name } g' [] where
  targets := h.targets.trans (congrArg AliasTable.targets haliases.symm)
  bound m hm := by
    rw [hobjects, NameMap.mem_insert] at hm
    exact NameSet.mem_add.mpr (hm.imp_right (h.bound m))
  unbound m hm := by
    rw [hobjects, NameMap.mem_insert]
    refine Or.inl ((NameSet.mem_add.mp hm).imp_right fun hm => ?_)
    exact (h.unbound m hm).resolve_right List.not_mem_nil
  forgotten m hm := absurd hm List.not_mem_nil

/-! ### Aliases -/

/-- The event of a registration tells what has become of the aliases. -/
lemma register (h : p.Follows g tasks) {key : Name} {aliases : AliasTable}
    {registration : Registration}
    (hok : g.aliases.register name key = .ok (aliases, registration)) :
    ∃ p', p.replay (registration.event key name).toList = some p' ∧
      p'.Follows { g with aliases } tasks := by
  have hfollows : ∀ targets : NameMap Name, targets = aliases.targets →
      Follows { p with targets } { g with aliases } tasks :=
    fun targets htargets => ⟨htargets, h.bound, h.unbound, h.forgotten⟩
  cases AliasTable.registers_of_register hok with
  | cleared _ =>
      by_cases halias : g.aliases.isAlias key
      · refine ⟨_, ?_, hfollows (p.targets.erase key) (by rw [h.targets]; rfl)⟩
        simp [Registration.event, halias, hear]
      · have herase : (g.aliases.targets.erase key) = g.aliases.targets :=
          NameMap.erase_of_not_mem fun hmem => halias (decide_eq_true hmem)
        refine ⟨p, ?_, hfollows p.targets (h.targets.trans herase.symm)⟩
        simp [Registration.event, halias]
  | added _ _ _ => exact ⟨_, rfl, hfollows (p.targets.insert key name) (by rw [h.targets])⟩
  | known _ _ => exact ⟨p, rfl, hfollows p.targets h.targets⟩
  | retargeted _ hprevious _ _ _ =>
      refine ⟨_, ?_, hfollows (p.targets.insert key name) (by rw [h.targets])⟩
      rw [← h.targets] at hprevious
      simp [Registration.event, hear, hprevious]

/-! ### Operations and tasks -/

/-- After a change that touches neither the aliases nor the finished objects, and is not reported,
the copy follows the registry as before. -/
lemma after_of_none (h : p.Follows g tasks) {change : Registry.Change S β}
    (haliases : change.registry.aliases = g.aliases)
    (hobjects : change.registry.objects = g.objects) (hevent : change.event = none) :
    p.FollowsAfter change tasks :=
  ⟨p, by simp [hevent], h.of_same haliases hobjects⟩

/-- The same for a change whose event tells of neither. -/
lemma after_of_some (h : p.Follows g tasks) {change : Registry.Change S β} {e : Event}
    (haliases : change.registry.aliases = g.aliases)
    (hobjects : change.registry.objects = g.objects) (hevent : change.event = some e)
    (hhear : p.hear e = some p) : p.FollowsAfter change tasks :=
  ⟨p, by simp [hevent, hhear], h.of_same haliases hobjects⟩

lemma after_bind (h : p.Follows g []) {object : S.Object} {change : Registry.Change S β}
    (haliases : change.registry.aliases = g.aliases)
    (hobjects : change.registry.objects = g.objects.insert name object)
    (hevent : change.event = some (.registered name) ∨ change.event = some (.created name)) :
    p.FollowsAfter change [] := by
  refine ⟨_, ?_, h.insert haliases hobjects⟩
  rcases hevent with he | he <;> simp [he, hear]

lemma after_remove (h : p.Follows g []) (name : Name) : p.FollowsAfter (g.remove name) [] := by
  have hmem : ∀ m, m ∈ (g.purge name).objects ↔ m ≠ name ∧ m ∈ g.objects :=
    fun m => NameMap.mem_erase
  by_cases hknown : (g.contains name || name ∈ g.known) = true
  · have hevent : (g.remove name).event = some (.removed name) := if_pos hknown
    refine ⟨{ p with bound := p.bound.erase name }, by simp [hevent, hear], h.targets, ?_, ?_, ?_⟩
    · intro m hm
      obtain ⟨hne, hm⟩ := (hmem m).mp hm
      exact NameMap.mem_erase.mpr ⟨hne, h.bound m hm⟩
    · intro m hm
      obtain ⟨hne, hm⟩ := NameMap.mem_erase.mp hm
      exact Or.inl ((hmem m).mpr ⟨hne, (h.unbound m hm).resolve_right List.not_mem_nil⟩)
    · exact fun m hm => absurd hm List.not_mem_nil
  · have hevent : (g.remove name).event = none := if_neg hknown
    have hname : name ∉ g.objects := fun hmem => hknown (by simp [Registry.contains, hmem])
    exact h.after_of_none rfl (NameMap.erase_of_not_mem hname) hevent

end Follows

end Replica

/-- Whether the operation reports all that it changes in the aliases and in the bound names, and
leaves the observer in its place. -/
def Update.isJournaled : Update S → Bool
  | .resolveAliases _ | .clear | .setObserver _ => false
  | _ => true

namespace Replica.Follows

variable {p : Replica} {g : Registry S} {tasks rest : List (Task S)}

/-- The copy after an operation, when no destruction is under way. -/
lemma apply (h : p.Follows g []) {u : Update S} (hu : u.isJournaled = true) :
    p.FollowsAfter (g.apply u) [] := by
  cases u with
  | registerAlias name key =>
      simp only [Registry.apply, Registry.registerAlias]
      split
      · next aliases registration hok => exact h.register hok
      · exact h.after_of_none rfl rfl rfl
  | removeAlias key =>
      simp only [Registry.apply, Registry.removeAlias]
      split
      · next aliases hok =>
          obtain ⟨-, rfl⟩ := AliasTable.remove_eq_ok hok
          refine ⟨{ p with targets := p.targets.erase key }, rfl, ?_, h.bound, h.unbound,
            h.forgotten⟩
          exact congrArg (NameMap.erase · key) h.targets
      · exact h.after_of_none rfl rfl rfl
  | register name object =>
      simp only [Registry.apply, Registry.register]
      split
      · exact h.after_of_none rfl rfl rfl
      · split
        · split <;> exact h.after_of_none rfl rfl rfl
        · exact h.after_bind rfl rfl (Or.inl rfl)
  | provideEarly name factory =>
      refine h.after_of_none ?_ ?_ rfl
      all_goals
        simp only [Registry.apply, Registry.provideEarly]
        split <;> rfl
  | remove name => exact h.after_remove name
  | contain outer inner =>
      simp only [Registry.apply, Registry.contain]
      split <;> exact h.after_of_none rfl rfl rfl
  | resolveAliases resolver => cases hu
  | clear => cases hu
  | setObserver observer => cases hu
  | _ => exact h.after_of_none rfl rfl rfl

/-- The copy after a creation, when no destruction is under way. -/
lemma finishCreation (h : p.Follows g []) (name : Name) (opened : Bool)
    (result : Except Error S.Object) : p.FollowsAfter (g.finishCreation name opened result) [] := by
  have haliases := (Registry.AgreesOutside.finishCreation g name opened result).aliases
  rcases Registry.finishCreation_cases g name opened result with
    ⟨o, -, hevent, hobjects⟩ | ⟨hevent, hobjects, -⟩
  · exact h.after_bind haliases hobjects (Or.inr hevent)
  · exact h.after_of_none haliases hobjects hevent

/-- The copy after a lookup that has run an early factory. -/
lemma finishExposure (h : p.Follows g tasks) (name : Name) (factory : S.Factory)
    (result : Except Error S.Object) :
    p.FollowsAfter (g.finishExposure name factory result) tasks := by
  have haliases := (Registry.AgreesOutside.finishExposure g name factory result).aliases
  cases result with
  | ok object => exact h.after_of_some haliases rfl rfl rfl
  | error e =>
      refine h.after_of_none haliases ?_ rfl
      simp only [Registry.finishExposure]
      split <;> rfl

/-- A name that goes out of the caches is kept in the copy until it is reported. -/
lemma perform_destroy {n : Name} (h : p.Follows g (.destroy n :: rest)) :
    p.FollowsAfter (g.perform (.destroy n)) ((g.perform (.destroy n)).answer ++ rest) := by
  have hmem : ∀ m, m ∈ (g.perform (.destroy n)).registry.objects ↔ m ≠ n ∧ m ∈ g.objects :=
    fun m => NameMap.mem_erase
  have hforget : ∀ m, .forget m ∈ (g.perform (.destroy n)).answer ++ rest ↔
      m = n ∨ .forget m ∈ rest := by
    intro m
    simp [Registry.perform, Registry.beginDestroy]
  refine ⟨p, rfl, h.targets, fun m hm => h.bound m ((hmem m).mp hm).2, fun m hm => ?_,
    fun m hm => ?_⟩
  · rw [hmem, hforget]
    by_cases hmn : m = n
    · exact Or.inr (Or.inl hmn)
    · rcases h.unbound m hm with hm | hm
      · exact Or.inl ⟨hmn, hm⟩
      · exact Or.inr (Or.inr ((List.mem_cons.mp hm).resolve_left (by simp)))
  · rw [hmem]
    rcases (hforget m).mp hm with rfl | hm
    · exact fun hm => hm.1 rfl
    · exact fun hm' => h.forgotten m (List.mem_cons_of_mem _ hm) hm'.2

/-- A name that is reported goes out of the copy. -/
lemma perform_forget {n : Name} (h : p.Follows g (.forget n :: rest)) :
    p.FollowsAfter (g.perform (.forget n)) rest := by
  have hn : n ∉ g.objects := h.forgotten n List.mem_cons_self
  refine ⟨{ p with bound := p.bound.erase n }, rfl, h.targets, fun m hm => ?_, fun m hm => ?_,
    fun m hm => h.forgotten m (List.mem_cons_of_mem _ hm)⟩
  · have hne : m ≠ n := fun e => hn (e ▸ hm)
    exact NameMap.mem_erase.mpr ⟨hne, h.bound m hm⟩
  · obtain ⟨hne, hm⟩ := NameMap.mem_erase.mp hm
    refine (h.unbound m hm).imp_right fun hm => ?_
    rcases List.mem_cons.mp hm with hm | hm
    · cases hm
      exact absurd rfl hne
    · exact hm

/-- The copy after a task about a name. -/
lemma perform {t : Task S} (h : p.Follows g (t :: rest)) (ht : t.subject.isSome) :
    p.FollowsAfter (g.perform t) ((g.perform t).answer ++ rest) := by
  have hsame : ∀ names : List Name, (∀ m, .forget m ∈ t :: rest ↔ .forget m ∈ rest) → ∀ m,
      .forget m ∈ names.map (Task.destroy (S := S)) ++ rest ↔ .forget m ∈ t :: rest := by
    intro names hrest m
    rw [hrest, List.mem_append, or_iff_right]
    simp
  cases t with
  | destroy n => exact h.perform_destroy
  | forget n => exact h.perform_forget
  | dispose n disposer =>
      exact (h.congr (hsame [] fun m => by simp)).after_of_none rfl rfl rfl
  | destroyContents n =>
      exact (h.congr (hsame _ fun m => by simp)).after_of_none rfl rfl rfl
  | destroyAll => cases ht
  | reset => cases ht

/-- The copy after a deed that is no task, when no destruction is under way. -/
lemma moves {m m' : Moment S} {deed : Deed S} (h : p.Follows m.registry [])
    (hmoves : m.Moves deed m') (hupdate : ∀ u, deed = .update u → u.isJournaled = true)
    (htask : ∀ t, deed ≠ .task t) :
    ∃ events p', m'.events = m.events ++ events ∧ p.replay events = some p' ∧
      p'.Follows m'.registry [] := by
  have hafter : ∀ {γ : Type} {names : List Name} {change : Registry.Change S γ},
      p.FollowsAfter change [] → ∃ events p',
        (Moment.after { m with creations := names } change).events = m.events ++ events ∧
          p.replay events = some p' ∧
          p'.Follows (Moment.after { m with creations := names } change).registry [] := by
    rintro γ names change ⟨p', hp', hfollows⟩
    exact ⟨_, p', rfl, hp', hfollows⟩
  cases hmoves with
  | idle => exact ⟨[], p, (List.append_nil _).symm, rfl, h⟩
  | update u => exact hafter (h.apply (hupdate u rfl))
  | take hlookup =>
      refine ⟨[], p, (List.append_nil _).symm, rfl, ?_⟩
      have hg := Registry.eq_of_lookup_eq_expose hlookup
      exact h.of_same (by rw [hg]) (by rw [hg])
  | expose name factory result => exact hafter (h.finishExposure name factory result)
  | enter hdemand =>
      refine ⟨[], p, (List.append_nil _).symm, rfl, ?_⟩
      obtain ⟨-, -, -, -, hobjects⟩ := Registry.exists_mark_of_demand hdemand
      exact h.of_same (Registry.AgreesOutside.of_demand hdemand).aliases hobjects
  | @leave names name opened result hcreations => exact hafter (h.finishCreation name opened result)
  | announce =>
      exact hafter (h.after_of_some rfl rfl rfl rfl)
  | task t => exact absurd rfl (htask t)
  | fail name failure =>
      exact hafter (h.after_of_some rfl rfl rfl rfl)

end Replica.Follows

/-! ### Destructions that nothing comes in between -/

/-- The script calls no registry. It may look at them. -/
def Script.Silent : Script S α → Prop
  | .done _ => True
  | .read next => ∀ memory, (next memory).Silent
  | .store _ next => next.Silent
  | .note _ next => next.Silent
  | .make _ next => ∀ object, (next object).Silent
  | .view _ next => ∀ g, (next g).Silent
  | .call .. | .find .. | .demand .. | .tearDown .. | .tearDownAll .. => False

variable {caller : Caller S} {r s : S.Index} {role : Role} {stack : Stack S α role} {w : World S}

variable (stack w) in
/-- A script that calls no registry is at its end, or goes on with another such script. -/
lemma Script.Silent.done_or_step {script : Script S (role.Result S α)} (h : script.Silent) :
    (∃ result, script = .done result) ∨ ∃ (next : Script S (role.Result S α)) (w' : World S),
      next.Silent ∧ step caller ⟨role, .script script, stack, w⟩ = ⟨role, .script next, stack, w'⟩ ∧
        w'.registry r = w.registry r ∧ w'.seen (Entry.event? r) = w.seen (Entry.event? r) := by
  cases script with
  | done result => exact Or.inl ⟨result, rfl⟩
  | read next => exact Or.inr ⟨_, w, h _, rfl, rfl, rfl⟩
  | store change next =>
      exact Or.inr ⟨next, { w with memory := change w.memory }, h, rfl, rfl, rfl⟩
  | note content next =>
      exact Or.inr ⟨next, w.write (.note content), h, rfl, rfl,
        (World.seen_write w _).trans (List.append_nil _)⟩
  | make value next =>
      exact Or.inr ⟨next (w.make value).2, (w.make value).1, h _, rfl, rfl, rfl⟩
  | view s next => exact Or.inr ⟨_, w, h _, rfl, rfl, rfl⟩
  | call s u next => exact h.elim
  | find s name early next => exact h.elim
  | demand s name factory next => exact h.elim
  | tearDown s name next => exact h.elim
  | tearDownAll s next => exact h.elim

/-- No destruction of the registry is under way, or the innermost call is one, or a disposer or an
observer that it has called, which calls no registry. -/
inductive Config.Calm (r : S.Index) : Config S α → Prop
  | outside {c : Config S α} (h : c.pending r = []) : Calm r c
  | teardown {role : Role} {tasks : List (Task S)} {next : Script S (role.Result S α)}
      {stack : Stack S α role} {w : World S} (h : stack.tasks r = []) :
      Calm r ⟨role, .teardown r tasks next, stack, w⟩
  | disposer {role : Role} {name : Name} {tasks : List (Task S)}
      {next : Script S (role.Result S α)} {below : Stack S α role} {w : World S}
      {script : Script S (Except Error Unit)} (hscript : script.Silent) (h : below.tasks r = []) :
      Calm r ⟨.disposer, .script script, .disposing r name tasks next below, w⟩
  | observer {role : Role} {tasks : List (Task S)} {next : Script S (role.Result S α)}
      {below : Stack S α role} {w : World S} {script : Script S Unit} (hscript : script.Silent)
      (h : below.tasks r = []) :
      Calm r ⟨.observer, .script script, .observing (.teardown r tasks next) below, w⟩

lemma Config.calm_proceed {change : Registry.Change S (List (Task S))} {tasks : List (Task S)}
    {next : Script S (role.Result S α)} {o : S.Observer} (h : stack.tasks r = [])
    (ho : change.registry.observer = some o) (hsilent : ∀ e, (caller.observer o e).Silent) :
    (proceed caller r change tasks next stack w).Calm r := by
  have hr : ((w.carry r change).registry r).observer = some o := by
    rw [World.registry_carry, ho]
  unfold proceed commit report
  split
  · exact .teardown h
  · next e _ =>
      rw [hr]
      exact .observer (hsilent e) h

/-! ### What the observer is told -/

/-- The observer begins to hear of the event. -/
def Config.Hears (caller : Caller S) (o : S.Observer) (e : Event) (c : Config S α) : Prop :=
  ∃ (role : Role) (next : Activity S (role.Result S α)) (below : Stack S α role) (w : World S),
    c = ⟨.observer, .script (caller.observer o e), .observing next below, w⟩

/-- Since the world `w`, the registry has reported no event, or one that its observer begins to hear
of. -/
def Config.Heard (caller : Caller S) (r : S.Index) (o : S.Observer) (w : World S)
    (c : Config S α) : Prop :=
  c.world.seen (Entry.event? r) = w.seen (Entry.event? r) ∨
    ∃ e, c.world.seen (Entry.event? r) = w.seen (Entry.event? r) ++ [e] ∧ c.Hears caller o e

section Heard

variable {o : S.Observer}

lemma Config.heard_commit (change : Registry.Change S β) (next : β → Activity S (role.Result S α))
    (ho : ((commit caller s change next stack w).world.registry r).observer = some o) :
    (commit caller s change next stack w).Heard caller r o w := by
  by_cases hs : s = r
  · subst hs
    have hmoment : (commit caller s change next stack w).moment s = Moment.after
        ⟨stack.creations s, w.registry s, w.seen (Entry.event? s)⟩ change :=
      moment_commit_self change next
    have hevents : (commit caller s change next stack w).world.seen (Entry.event? s) =
        w.seen (Entry.event? s) ++ change.event.toList := congrArg Moment.events hmoment
    have hregistry : (commit caller s change next stack w).world.registry s = change.registry :=
      congrArg Moment.registry hmoment
    rw [hregistry] at ho
    cases he : change.event with
    | none =>
        rw [he, Option.toList_none, List.append_nil] at hevents
        exact Or.inl hevents
    | some e =>
        rw [he] at hevents
        refine Or.inr ⟨e, hevents, role, next change.answer, stack,
          (w.carry s change).write (.event s e), ?_⟩
        have hr : ((w.carry s change).registry s).observer = some o := by
          rw [World.registry_carry, ho]
        simp only [commit, report, he, hr]
  · exact Or.inl (congrArg Moment.events (moment_commit_of_ne (Ne.symm hs) change next))

/-- The observer of a registry is told of each event where it is reported. -/
lemma step_heard (c : Config S α) (ho : ((step caller c).world.registry r).observer = some o) :
    (step caller c).Heard caller r o c.world := by
  obtain ⟨role, activity, stack, w⟩ := c
  cases activity with
  | teardown s tasks next =>
      cases tasks with
      | nil => exact Or.inl rfl
      | cons t tasks =>
          cases t with
          | dispose name disposer => exact Or.inl (w.seen_event_started s name _)
          | _ => exact Config.heard_commit _ _ ho
  | script script =>
      cases script with
      | done result =>
          cases stack with
          | bottom => exact Or.inl rfl
          | creating s name opened next below => exact Config.heard_commit _ _ ho
          | exposing s name factory next below => exact Config.heard_commit _ _ ho
          | disposing s name tasks next below =>
              cases result with
              | ok _ => exact Or.inl rfl
              | error failure => exact Config.heard_commit _ _ ho
          | observing next below => exact Or.inl rfl
      | note content next => exact Or.inl ((World.seen_write w _).trans (List.append_nil _))
      | call s u next => exact Config.heard_commit _ _ ho
      | find s name early next =>
          left
          simp only [step, stepScript]
          split
          · rfl
          · rw [World.seen_event_started, World.seen_setRegistry]
      | demand s name factory next =>
          left
          simp only [step, stepScript]
          split
          · rw [World.seen_event_log]
          · rw [World.seen_event_started, World.seen_event_log, World.seen_setRegistry]
      | tearDownAll s next => exact Config.heard_commit _ _ ho
      | _ => exact Or.inl rfl

end Heard

/-! ### What every step keeps -/

lemma Registry.observer_apply {g : Registry S} {u : Update S} (hu : u.isJournaled = true) :
    (g.apply u).registry.observer = g.observer := by
  cases u with
  | registerAlias name key =>
      simp only [apply, registerAlias]
      split <;> rfl
  | removeAlias key =>
      simp only [apply, removeAlias]
      split <;> rfl
  | register name object =>
      simp only [apply, register]
      split
      · rfl
      · split
        · split <;> rfl
        · rfl
  | provideEarly name factory =>
      simp only [apply, provideEarly]
      split <;> rfl
  | contain outer inner =>
      simp only [apply, contain]
      split <;> rfl
  | resolveAliases resolver => cases hu
  | clear => cases hu
  | setObserver observer => cases hu
  | _ => rfl

/-- The tasks that a task about a name puts first are about names. -/
lemma Registry.isSome_subject_of_mem_perform {g : Registry S} {t other : Task S}
    (ht : t.subject.isSome) (hother : other ∈ (g.perform t).answer) : other.subject.isSome := by
  have hnames : ∀ names : List Name, other ∈ names.map Task.destroy → other.subject.isSome := by
    intro names hmem
    obtain ⟨name, -, rfl⟩ := List.mem_map.mp hmem
    rfl
  cases t with
  | destroy n =>
      simp only [perform, beginDestroy, List.mem_append, List.mem_cons, List.not_mem_nil,
        or_false] at hother
      rcases hother with (hmem | hmem) | rfl | rfl
      · exact hnames _ hmem
      · obtain ⟨disposer, -, rfl⟩ := List.mem_map.mp hmem
        rfl
      · rfl
      · rfl
  | destroyContents n => exact hnames _ hother
  | dispose n disposer => cases hother
  | forget n => cases hother
  | destroyAll => cases ht
  | reset => cases ht

lemma Moment.Moves.observer_eq {m m' : Moment S} {deed : Deed S} (h : m.Moves deed m')
    (hupdate : ∀ u, deed = .update u → u.isJournaled = true) :
    m'.registry.observer = m.registry.observer := by
  by_cases hdeed : (∃ u, deed = .update u) ∨ ∃ t, deed = .task t
  · rcases hdeed with ⟨u, rfl⟩ | ⟨t, rfl⟩
    · cases h
      exact Registry.observer_apply (hupdate u rfl)
    · cases h
      exact Registry.observer_perform ..
  · rw [not_or, not_exists, not_exists] at hdeed
    exact (h.agreesOutside hdeed.1 hdeed.2).observer

/-- The next step reports all that it changes in the aliases and in the bound names of the registry.
It neither replaces the observer nor begins the destruction of all names. -/
def Config.journals (r : S.Index) (c : Config S α) : Bool :=
  match c.activity with
  | .script (.call s u _) => s ≠ r || u.isJournaled
  | .script (.tearDownAll s _) => s ≠ r
  | _ => true

lemma Config.Does.isJournaled {c : Config S α} {u : Update S} (h : c.Does r (.update u))
    (hj : c.journals r = true) : u.isJournaled = true := by
  cases h
  simpa [Config.journals] using hj

lemma Config.Does.not_journals {c : Config S α} (h : c.Does r .announce) :
    c.journals r = false := by
  cases h
  simp [Config.journals]

/-- A moment of a run that has reported the events `before` when the registry was fresh: a copy that
has heard of the events since then follows the registry. -/
structure Faithful (r : S.Index) (o : S.Observer) (before : List Event) (c : Config S α) :
    Prop where
  calm : c.Calm r
  subjects : ∀ t ∈ c.pending r, t.subject.isSome
  observer : (c.world.registry r).observer = some o
  replica : ∃ events p, c.world.seen (Entry.event? r) = before ++ events ∧
    Replica.replay {} events = some p ∧ p.Follows (c.world.registry r) (c.pending r)

namespace Faithful

variable {o : S.Observer} {before : List Event} {c d : Config S α}

/-- The copy hears of the events between two moments. -/
lemma next (hf : Faithful r o before c) (hcalm : d.Calm r)
    (hsubjects : ∀ t ∈ d.pending r, t.subject.isSome)
    (hobserver : (d.world.registry r).observer = some o)
    (hreplica : ∀ p : Replica, p.Follows (c.world.registry r) (c.pending r) → ∃ events p',
      d.world.seen (Entry.event? r) = c.world.seen (Entry.event? r) ++ events ∧
        p.replay events = some p' ∧ p'.Follows (d.world.registry r) (d.pending r)) :
    Faithful r o before d := by
  obtain ⟨events, p, hseen, hp, hfollows⟩ := hf.replica
  obtain ⟨more, p', hseen', hp', hfollows'⟩ := hreplica p hfollows
  refine ⟨hcalm, hsubjects, hobserver, events ++ more, p', ?_, ?_, hfollows'⟩
  · rw [hseen', hseen, List.append_assoc]
  · rw [Replica.replay_append hp, hp']

/-- Nothing happens to the registry between two moments. -/
lemma of_same (hf : Faithful r o before c) (hcalm : d.Calm r)
    (hpending : d.pending r = c.pending r)
    (hregistry : d.world.registry r = c.world.registry r)
    (hseen : d.world.seen (Entry.event? r) = c.world.seen (Entry.event? r)) :
    Faithful r o before d :=
  hf.next hcalm (hpending ▸ hf.subjects) (hregistry ▸ hf.observer) fun p hp =>
    ⟨[], p, hseen.trans (List.append_nil _).symm, rfl, by rwa [hregistry, hpending]⟩

section Step

variable (hdisposers : ∀ d, (caller.disposer d).Silent)
  (hobserver : ∀ e, (caller.observer o e).Silent)

include hdisposers hobserver in
/-- A task of the only destruction that is under way. -/
lemma task {t : Task S} {tasks : List (Task S)} {next : Script S (role.Result S α)}
    (hf : Faithful r o before ⟨role, .teardown r (t :: tasks) next, stack, w⟩)
    (hstack : stack.tasks r = []) :
    Faithful r o before (step caller ⟨role, .teardown r (t :: tasks) next, stack, w⟩) := by
  have hdoes : Config.Does r ⟨role, .teardown r (t :: tasks) next, stack, w⟩ (.task t) := .task t
  obtain ⟨rest, hpending, hpending'⟩ := hdoes.pending_task caller
  have hmoment := hdoes.moment_task caller
  have hregistry : (step caller ⟨role, .teardown r (t :: tasks) next, stack, w⟩).world.registry r =
      ((w.registry r).perform t).registry := congrArg Moment.registry hmoment
  have hseen : (step caller ⟨role, .teardown r (t :: tasks) next, stack, w⟩).world.seen
      (Entry.event? r) = w.seen (Entry.event? r) ++ ((w.registry r).perform t).event.toList :=
    congrArg Moment.events hmoment
  have hsubject : t.subject.isSome := hf.subjects t (hpending ▸ List.mem_cons_self)
  have ho : ((w.registry r).perform t).registry.observer = some o :=
    (Registry.observer_perform ..).trans hf.observer
  have hcalm : (step caller ⟨role, .teardown r (t :: tasks) next, stack, w⟩).Calm r := by
    cases t with
    | dispose name disposer => exact .disposer (hdisposers disposer) hstack
    | _ => exact Config.calm_proceed hstack ho hobserver
  refine hf.next hcalm (fun other hother => ?_) (hregistry ▸ ho) fun p hp => ?_
  · rw [hpending', List.mem_append] at hother
    rcases hother with hother | hother
    · exact Registry.isSome_subject_of_mem_perform hsubject hother
    · exact hf.subjects other (hpending ▸ List.mem_cons_of_mem _ hother)
  · rw [hpending] at hp
    obtain ⟨p', hp', hfollows⟩ := hp.perform hsubject
    exact ⟨_, p', hseen, hp', by rwa [hregistry, hpending']⟩

include hobserver in
/-- A disposer ends, and the rest of the destruction is left. -/
lemma disposed {name : Name} {tasks : List (Task S)} {next : Script S (role.Result S α)}
    {result : Except Error Unit}
    (hf : Faithful r o before
      ⟨.disposer, .script (.done result), .disposing r name tasks next stack, w⟩)
    (hstack : stack.tasks r = []) :
    Faithful r o before (step caller
      ⟨.disposer, .script (.done result), .disposing r name tasks next stack, w⟩) := by
  have hbefore : Config.pending r (⟨.disposer, .script (.done result),
      .disposing r name tasks next stack, w⟩ : Config S α) = tasks ++ stack.tasks r := by
    simp [Config.pending, Activity.tasks, Stack.tasks]
  cases result with
  | ok _ =>
      refine hf.of_same (.teardown hstack) ?_ rfl rfl
      rw [hbefore]
      simp [step, stepScript, resume, Config.pending, Activity.tasks]
  | error failure =>
      have hmoment : (step caller ⟨.disposer, .script (.done (.error failure)),
          .disposing r name tasks next stack, w⟩).moment r =
            Moment.after ⟨stack.creations r, w.registry r, w.seen (Entry.event? r)⟩
              ((w.registry r).reportFailure name failure) := moment_commit_self _ _
      have hpending : (step caller ⟨.disposer, .script (.done (.error failure)),
          .disposing r name tasks next stack, w⟩).pending r = tasks ++ stack.tasks r :=
        (pending_commit _ _).trans (by simp [Activity.tasks, Registry.reportFailure])
      have hregistry := congrArg Moment.registry hmoment
      have hcalm : (proceed caller r ((w.registry r).reportFailure name failure) tasks next stack
          w).Calm r := Config.calm_proceed hstack hf.observer hobserver
      refine hf.next hcalm ?_ ?_ fun p hp => ?_
      · rw [hpending, ← hbefore]
        exact hf.subjects
      · exact (congrArg Registry.observer hregistry).trans hf.observer
      · refine ⟨[.destroyFailed name failure.message], p, congrArg Moment.events hmoment, rfl, ?_⟩
        rw [hpending, ← hbefore]
        exact hp.of_same (congrArg Registry.aliases hregistry) (congrArg Registry.objects hregistry)

/-- A step while no destruction is under way. -/
lemma outside (hf : Faithful r o before c) (hnone : c.pending r = [])
    (hjournals : c.journals r = true) : Faithful r o before (step caller c) := by
  have htask : ∀ t, ¬ c.Does r (.task t) := fun t hdoes => by
    obtain ⟨rest, hpending, -⟩ := hdoes.pending_task caller
    rw [hnone] at hpending
    cases hpending
  obtain ⟨deed, hdoes, hmoves⟩ := step_moves caller r c
  have hupdate : ∀ u, deed = .update u → u.isJournaled = true := by
    rintro u rfl
    exact hdoes.isJournaled hjournals
  have ho : ((step caller c).world.registry r).observer = some o :=
    (hmoves.observer_eq hupdate).trans hf.observer
  have hdeed : ∀ t, deed ≠ .task t := by
    rintro t rfl
    exact htask t hdoes
  have hreplica : ∀ p : Replica, p.Follows (c.world.registry r) (c.pending r) → ∃ events p',
      (step caller c).world.seen (Entry.event? r) = c.world.seen (Entry.event? r) ++ events ∧
        p.replay events = some p' ∧ p'.Follows ((step caller c).world.registry r) [] := by
    intro p hp
    rw [hnone] at hp
    exact hp.moves hmoves hupdate hdeed
  rcases pending_step_cases caller htask with hsame | ⟨role, name, next, stack, w, rfl, hone⟩ |
    ⟨hannounce, -⟩
  · rw [hnone] at hsame
    exact hf.next (.outside hsame) (by simp [hsame]) ho (hsame ▸ hreplica)
  · rw [hnone] at hone
    refine hf.next (.teardown hnone) (fun t ht => ?_) ho fun p hp => ?_
    · rw [hone] at ht
      exact List.mem_singleton.mp ht ▸ rfl
    · obtain ⟨events, p', hseen, hp', hfollows⟩ := hreplica p hp
      exact ⟨events, p', hseen, hp', hone ▸ hfollows.congr (by simp)⟩
  · rw [hannounce.not_journals] at hjournals
    cases hjournals

include hdisposers hobserver in
/-- Every step keeps the copy right. -/
theorem step (hf : Faithful r o before c) (hjournals : c.journals r = true) :
    Faithful r o before (step caller c) := by
  have hcalm := hf.calm
  cases hcalm with
  | outside hnone => exact hf.outside hnone hjournals
  | @teardown role tasks next stack w hstack =>
      cases tasks with
      | nil =>
          refine hf.of_same (.outside hstack) ?_ rfl rfl
          simp [InstanceRegistry.step, stepTeardown, Config.pending, Activity.tasks]
      | cons t tasks => exact hf.task hdisposers hobserver hstack
  | @disposer role name tasks next below w script hscript hbelow =>
      rcases Script.Silent.done_or_step (.disposing r name tasks next below) w hscript with
        ⟨result, rfl⟩ | ⟨next', w', hnext, hstep, hregistry, hseen⟩
      · exact hf.disposed hobserver hbelow
      · rw [hstep]
        exact hf.of_same (.disposer hnext hbelow) rfl hregistry hseen
  | @observer role tasks next below w script hscript hbelow =>
      rcases Script.Silent.done_or_step (.observing (.teardown r tasks next) below) w hscript with
        ⟨result, rfl⟩ | ⟨next', w', hnext, hstep, hregistry, hseen⟩
      · exact hf.of_same (.teardown hbelow) rfl rfl rfl
      · rw [hstep]
        exact hf.of_same (.observer hnext hbelow) rfl hregistry hseen

end Step

end Faithful

/-! ### The journal of a run -/

/-- **The events are a faithful journal.** In any run from a fresh registry that is observed, that
calls only operations that report what they change, and whose disposers and observer call no
registry, the observer is told of each event where it is reported. Whenever no destruction is under
way, a copy that has heard of all events has the same aliases in the same order, and the same bound
names. -/
theorem journal_replays {script : Script S α} {o : S.Observer} {allowed : Bool} {k : ℕ}
    (hfresh : w.registry r = { Registry.withOverriding allowed with observer := some o })
    (hobserver : ∀ e, (caller.observer o e).Silent) (hdisposers : ∀ d, (caller.disposer d).Silent)
    (hjournals : ∀ l < k, (run caller l (Config.start script w)).journals r = true) :
    ∃ events, (run caller k (Config.start script w)).world.seen (Entry.event? r) =
        w.seen (Entry.event? r) ++ events ∧
      (∀ l < k, (run caller (l + 1) (Config.start script w)).Heard caller r o
        (run caller l (Config.start script w)).world) ∧
      ((run caller k (Config.start script w)).pending r = [] → ∃ p : Replica,
        Replica.replay {} events = some p ∧
        p.targets = ((run caller k (Config.start script w)).world.registry r).aliases.targets ∧
        ∀ m, m ∈ p.bound ↔
          ((run caller k (Config.start script w)).world.registry r).contains m = true) := by
  have hstart : Faithful r o (w.seen (Entry.event? r)) (Config.start script w) := by
    refine ⟨.outside rfl, fun t ht => absurd ht List.not_mem_nil, congrArg Registry.observer hfresh,
      [], {}, (List.append_nil _).symm, rfl, ?_, fun m hm => ?_, fun m hm => ?_, fun m hm => ?_⟩
    · exact (congrArg (fun g : Registry S => g.aliases.targets) hfresh).symm
    · have hobjects : (w.registry r).objects = ∅ := congrArg Registry.objects hfresh
      exact absurd (hobjects ▸ hm : m ∈ (∅ : NameMap S.Object)) List.not_mem_nil
    · exact absurd hm List.not_mem_nil
    · exact absurd hm List.not_mem_nil
  have hrun : ∀ l ≤ k, Faithful r o (w.seen (Entry.event? r))
      (run caller l (Config.start script w)) := fun l hl =>
    run_preserves (i := 0) (j := k) _ _ hstart
      (fun l _ hl hf => hf.step hdisposers hobserver (hjournals l hl)) l (Nat.zero_le l) hl
  obtain ⟨-, -, -, events, p, hseen, hp, hfollows⟩ := hrun k le_rfl
  refine ⟨events, hseen, fun l hl => ?_, fun hquiet => ⟨p, hp, hfollows.targets, fun m => ?_⟩⟩
  · have ho := (hrun (l + 1) hl).observer
    rw [run_succ'] at ho ⊢
    exact step_heard _ ho
  · rw [hquiet] at hfollows
    rw [Registry.contains, decide_eq_true_iff]
    exact ⟨fun hm => (hfollows.unbound m hm).resolve_right List.not_mem_nil, hfollows.bound m⟩

/-! ### A creation that destroys what it depends on -/

section Recorded

/-- One registry, and an observer that records the events in the memory. -/
def recorded : Setup := ⟨.basic, 1, Bool, Unit, Unit, List Event, Empty⟩

/-- The number of the registry. -/
def recordedIndex : recorded.Index := Fin.mk 0 Nat.one_pos

/-- The factory of the service gives it an alias, fails to get a cache, destroys the pool that the
service contains, and makes the service. The disposer fails. -/
def recordedCaller : Caller recorded where
  factory
    | false => .done (.error (.illegalState "no cache"))
    | true =>
      .call recordedIndex (.registerAlias "service" "svc") fun _ =>
      .demand recordedIndex "cache" false fun _ =>
      .call recordedIndex (.contain "service" "pool") fun _ =>
      .tearDown recordedIndex "pool" <|
      .make (.text "service") fun o => .done (.ok o)
  disposer _ := .done (.error (.illegalState "busy"))
  observer _ e := .store (fun events : List Event => events ++ [e]) (.done ())

/-- A pool is registered, and its alias is given to the service, which is created. -/
def recordedScript : Script recorded Unit :=
  .make (.text "pool") fun o =>
  .call recordedIndex (.register "pool" o) fun _ =>
  .call recordedIndex (.onDestroy "pool" ()) fun _ =>
  .call recordedIndex (.registerAlias "pool" "db") fun _ =>
  .call recordedIndex (.registerAlias "service" "db") fun _ =>
  .demand recordedIndex "service" true fun _ =>
  .call recordedIndex (.removeAlias "svc") fun _ =>
  .call recordedIndex (.registerAlias "db" "data") fun _ => .done ()

/-- The world with the observed registry only. -/
def recordedWorld : World recorded :=
  ⟨#v[{ Registry.withOverriding true with observer := some () }], [], 0, []⟩

/-- The events of the script. The service is destroyed with its pool while it is created. -/
def recordedEvents : List Event :=
  [.registered "pool", .aliasRegistered "db" "pool", .aliasRetargeted "db" "pool" "service",
    .aliasRegistered "svc" "service", .destroyed "pool", .destroyed "service",
    .destroyFailed "pool" "illegal state: busy", .destroyed "pool", .created "service",
    .aliasRemoved "svc", .aliasRegistered "data" "db"]

/-- The journal of the script. -/
theorem journal_replays_recorded :
    (recordedWorld.registry recordedIndex =
        { Registry.withOverriding true with observer := some () } ∧
      (∀ e, (recordedCaller.observer () e).Silent) ∧
      (∀ d, (recordedCaller.disposer d).Silent) ∧
      (∀ l < 49, (run recordedCaller l (Config.start recordedScript recordedWorld)).journals
        recordedIndex = true) ∧
      (run recordedCaller 49 (Config.start recordedScript recordedWorld)).pending
        recordedIndex = []) ∧
      (run recordedCaller 49 (Config.start recordedScript recordedWorld)).world.seen
          (Entry.event? recordedIndex) = recordedEvents ∧
      ∃ p : Replica, Replica.replay {} recordedEvents = some p ∧ p.targets =
          ((run recordedCaller 49 (Config.start recordedScript recordedWorld)).world.registry
            recordedIndex).aliases.targets ∧
        ∀ m, m ∈ p.bound ↔
          ((run recordedCaller 49 (Config.start recordedScript recordedWorld)).world.registry
            recordedIndex).contains m = true := by
  have hfresh : recordedWorld.registry recordedIndex =
      { Registry.withOverriding true with observer := some () } := rfl
  have hobserver : ∀ e, (recordedCaller.observer () e).Silent := fun _ => trivial
  have hdisposers : ∀ d, (recordedCaller.disposer d).Silent := fun _ => trivial
  have hjournals : ∀ l < 49, (run recordedCaller l (Config.start recordedScript
      recordedWorld)).journals recordedIndex = true := by decide +kernel
  have hquiet : (run recordedCaller 49 (Config.start recordedScript recordedWorld)).pending
      recordedIndex = [] := by rfl
  have hlist : (run recordedCaller 49 (Config.start recordedScript recordedWorld)).world.seen
      (Entry.event? recordedIndex) = recordedEvents := by rfl
  obtain ⟨events, hseen, -, hcopy⟩ := journal_replays hfresh hobserver hdisposers hjournals
  obtain rfl : recordedEvents = events := hlist.symm.trans hseen
  exact ⟨⟨hfresh, hobserver, hdisposers, hjournals, hquiet⟩, hlist, hcopy hquiet⟩

end Recorded

end InstanceRegistry
