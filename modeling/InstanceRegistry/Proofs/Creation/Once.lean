import InstanceRegistry.Proofs.Registry.Frames
import InstanceRegistry.Proofs.Run.Moments

/-!
A name is created at most once before it is dropped, whatever the factories do, and a request yields
the object that is bound. An observer is not to change the registry that reports to it, and only the
second statement relies on that.

* `Deed.Drops`: the deeds that drop a name from the caches;
* `Moment.Tracks`: a creation that is under way has its mark, and is the only one of its name;
* `Moment.Settled`: a name is bound and not being created, which only a drop ends;
* `exists_drops_between`: between two creations of a name there is a drop;
* `higherUntil_demand`: what a request yields is what is bound when it is answered;
* `created_once`: both together.
-/

namespace InstanceRegistry

variable {S : Setup} {α : Type} {caller : Caller S} {r : S.Index} {name : Name}

/-! ### Creations and drops -/

/-- The deed drops the name from the caches, if it is there. -/
def Deed.Drops (name : Name) : Deed S → Prop
  | .update (.remove other) => other = name
  | .update .clear => True
  | .task (.destroy other) => other = name
  | .task .reset => True
  | _ => False

lemma Deed.ne_of_not_drops_update {u : Update S} (h : ¬ (Deed.update u).Drops name) :
    u ≠ .remove name ∧ u ≠ .clear := by
  constructor
  · rintro rfl
    exact h rfl
  · rintro rfl
    exact h trivial

lemma Deed.ne_of_not_drops_task {t : Task S} (h : ¬ (Deed.task t).Drops name) :
    t ≠ .destroy name ∧ t ≠ .reset := by
  constructor
  · rintro rfl
    exact h rfl
  · rintro rfl
    exact h trivial

/-- The next step drops the name from the caches: it is removed or destroyed, or the caches are
cleared, or a destruction of all names ends. -/
def Config.Drops (r : S.Index) (name : Name) (c : Config S α) : Prop :=
  ∃ deed, c.Does r deed ∧ deed.Drops name

/-- The next step reports that the name is created. -/
def Config.Creates (caller : Caller S) (r : S.Index) (name : Name) (c : Config S α) : Prop :=
  (step caller c).world.seen (Entry.event? r) =
    c.world.seen (Entry.event? r) ++ [.created name]

namespace Moment

variable {m m' : Moment S} {deed : Deed S}

/-- The name is being created at most once, and is marked if it is. -/
structure Tracks (name : Name) (m : Moment S) : Prop where
  once : m.creations.count name ≤ 1
  marked : name ∈ m.creations → name ∈ m.registry.inCreation

/-- The name is bound and not being created. -/
structure Settled (name : Name) (m : Moment S) : Prop where
  bound : (m.registry.object? name).isSome
  ended : name ∉ m.creations

/-- A name that is not excluded is tracked whatever is done. -/
lemma Tracks.moves (h : Tracks name m) (hexcluded : name ∉ m.registry.excluded)
    (hmoves : m.Moves deed m') : Tracks name m' := by
  cases hmoves with
  | idle => exact h
  | update u => exact ⟨h.once, fun hm => by simpa [after] using h.marked hm⟩
  | take hlookup =>
      refine ⟨h.once, fun hm => ?_⟩
      rw [Registry.eq_of_lookup_eq_expose hlookup]
      exact h.marked hm
  | expose other factory result => exact ⟨h.once, fun hm => by simpa [after] using h.marked hm⟩
  | @enter other g opened hdemand =>
      refine ⟨?_, fun hm => ?_⟩
      · rw [List.count_cons]
        by_cases hne : other = name
        · subst hne
          have hnot := (Registry.mem_inCreation_of_demand hdemand hexcluded).1
          have hzero := List.count_eq_zero_of_not_mem (mt h.marked hnot)
          simp [hzero]
        · have honce := h.once
          simp [hne, honce]
      · by_cases hne : other = name
        · subst hne
          exact (Registry.mem_inCreation_of_demand hdemand hexcluded).2
        · have hmem : name ∈ m.creations := (List.mem_cons.mp hm).resolve_left (Ne.symm hne)
          exact Registry.mem_inCreation_of_demand_of_mem hdemand (h.marked hmem)
  | @leave names other opened result hcreations =>
      have honce := h.once
      rw [hcreations, List.count_cons] at honce
      refine ⟨?_, fun hm => ?_⟩
      · show names.count name ≤ 1
        omega
      · have hm' : name ∈ names := hm
        have hpos := List.count_pos_iff.mpr hm'
        have hne : name ≠ other := by
          rintro rfl
          simp only [beq_self_eq_true, if_true] at honce
          omega
        refine (Registry.mem_inCreation_finishCreation hne).mpr (h.marked ?_)
        rw [hcreations]
        exact List.mem_cons_of_mem other hm'
  | announce => exact ⟨h.once, h.marked⟩
  | task t => exact ⟨h.once, fun hm => by simpa [after] using h.marked hm⟩
  | fail other failure => exact ⟨h.once, h.marked⟩

/-- A bound name that is not being created stays so, unless it is dropped. -/
lemma Settled.moves (h : Settled name m) (hmoves : m.Moves deed m') (hdrops : ¬ deed.Drops name) :
    Settled name m' := by
  obtain ⟨o, ho⟩ := Option.isSome_iff_exists.mp h.bound
  cases hmoves with
  | idle => exact h
  | update u =>
      obtain ⟨hremove, hclear⟩ := Deed.ne_of_not_drops_update hdrops
      exact ⟨Option.isSome_iff_exists.mpr ⟨o, Registry.object?_apply ho hremove hclear⟩, h.ended⟩
  | take hlookup =>
      refine ⟨?_, h.ended⟩
      rw [Registry.eq_of_lookup_eq_expose hlookup]
      exact h.bound
  | expose other factory result =>
      exact ⟨by simpa [after] using h.bound, h.ended⟩
  | @enter other g opened hdemand =>
      obtain ⟨hnone, -, -, -, hobjects⟩ := Registry.exists_mark_of_demand hdemand
      have hne : other ≠ name := by
        rintro rfl
        exact absurd (hnone.symm.trans ho) (by simp)
      refine ⟨?_, fun hm => h.ended ((List.mem_cons.mp hm).resolve_left (Ne.symm hne))⟩
      show (g.objects.get? name).isSome
      rw [hobjects]
      exact h.bound
  | @leave names other opened result hcreations =>
      refine ⟨Registry.isSome_object?_finishCreation h.bound, fun hm => h.ended ?_⟩
      rw [hcreations]
      exact List.mem_cons_of_mem other hm
  | announce => exact ⟨h.bound, h.ended⟩
  | task t =>
      obtain ⟨hdestroy, hreset⟩ := Deed.ne_of_not_drops_task hdrops
      exact ⟨Option.isSome_iff_exists.mpr ⟨o, Registry.object?_perform ho hdestroy hreset⟩, h.ended⟩
  | fail other failure => exact ⟨h.bound, h.ended⟩

/-- A deed that drops a name leaves it unbound. -/
lemma object?_of_drops (hmoves : m.Moves deed m') (hdrops : deed.Drops name) :
    m'.registry.object? name = none := by
  cases hmoves with
  | update u =>
      cases u with
      | remove other =>
          obtain rfl : other = name := hdrops
          exact Registry.object?_purge_self m.registry other
      | clear => rfl
      | _ => exact absurd hdrops id
  | task t =>
      cases t with
      | destroy other =>
          obtain rfl : other = name := hdrops
          exact Registry.object?_purge_self m.registry other
      | reset => rfl
      | _ => exact absurd hdrops id
  | _ => exact absurd hdrops id

/-- A report that a name is created is made by the end of its creation, and the name is bound. -/
lemma exists_creations_of_created (hmoves : m.Moves deed m')
    (hevents : m'.events = m.events ++ [.created name]) :
    m.creations = name :: m'.creations ∧ (m'.registry.object? name).isSome := by
  have hafter : ∀ {β : Type} (change : Registry.Change S β),
      m.events ++ change.event.toList = m.events ++ [.created name] →
      change.event = some (.created name) := by
    intro β change heq
    have hlist := List.append_cancel_left heq
    cases hevent : change.event with
    | none => rw [hevent] at hlist; cases hlist
    | some e => rw [hevent] at hlist; rw [List.cons.inj hlist |>.1]
  have hsame : m.events ≠ m.events ++ [.created name] := by simp
  cases hmoves with
  | idle => exact absurd hevents hsame
  | take hlookup => exact absurd hevents hsame
  | enter hdemand => exact absurd hevents hsame
  | update u => exact absurd (hafter _ hevents) (Registry.event_apply_ne m.registry u name)
  | expose other factory result =>
      exact absurd (hafter _ hevents)
        (Registry.event_finishExposure_ne m.registry other factory result name)
  | announce => exact absurd (hafter _ hevents) (by simp [Registry.announceDestroyAll])
  | task t => exact absurd (hafter _ hevents) (Registry.event_perform_ne m.registry t name)
  | fail other failure => exact absurd (hafter _ hevents) (by simp [Registry.reportFailure])
  | @leave names other opened result hcreations =>
      have hevent := hafter _ hevents
      rcases Registry.finishCreation_cases m.registry other opened result with
        ⟨o, -, hcreated, hobjects⟩ | ⟨hnone, -, -⟩
      · obtain rfl : other = name := by simpa using hcreated.symm.trans hevent
        refine ⟨hcreations, ?_⟩
        show ((m.registry.finishCreation other opened result).registry.objects.get? other).isSome
        rw [hobjects, NameMap.get?_insert_self]
        rfl
      · exact absurd (hnone.symm.trans hevent) (by simp)

end Moment

/-! ### Between two creations -/

/-- **A name is created at most once before it is dropped**: as long as it is not excluded, a step
that drops it comes between any two steps that report its creation. -/
lemma exists_drops_between {s : Script S α} {w : World S} {i j : ℕ} (hij : i < j)
    (htracked : ∀ k ≤ j, name ∉ ((run caller k (Config.start s w)).world.registry r).excluded)
    (hi : (run caller i (Config.start s w)).Creates caller r name)
    (hj : (run caller j (Config.start s w)).Creates caller r name) :
    ∃ k, i < k ∧ k < j ∧ (run caller k (Config.start s w)).Drops r name ∧
      (((run caller k (Config.start s w)).world.registry r).object? name).isSome ∧
      ((run caller (k + 1) (Config.start s w)).world.registry r).object? name = none := by
  let c : ℕ → Config S α := fun k => run caller k (Config.start s w)
  have hstep : ∀ k, c (k + 1) = step caller (c k) := fun k => run_succ' caller k _
  have hcreates : ∀ k, (c k).Creates caller r name →
      ((c k).moment r).creations = name :: ((c (k + 1)).moment r).creations ∧
        ((c (k + 1)).world.registry r |>.object? name).isSome := by
    intro k hk
    obtain ⟨deed, -, hmoves⟩ := step_moves caller r (c k)
    rw [hstep]
    exact Moment.exists_creations_of_created hmoves hk
  have htracks : ∀ k ≤ j, Moment.Tracks name ((c k).moment r) := by
    intro k
    induction k with
    | zero => exact fun _ => ⟨Nat.zero_le 1, fun h => absurd h List.not_mem_nil⟩
    | succ k ih =>
        intro hk
        obtain ⟨deed, -, hmoves⟩ := step_moves caller r (c k)
        rw [hstep]
        exact (ih (by omega)).moves (htracked k (by omega)) hmoves
  by_contra hnone
  have hsettled : ∀ k, i + 1 ≤ k → k ≤ j → Moment.Settled name ((c k).moment r) := by
    intro k hk
    induction k, hk using Nat.le_induction with
    | base =>
        intro _
        obtain ⟨hcreations, hbound⟩ := hcreates i hi
        have honce := (htracks i hij.le).once
        rw [hcreations, List.count_cons_self] at honce
        have hzero : ((c (i + 1)).moment r).creations.count name = 0 := by omega
        exact ⟨hbound, List.count_eq_zero.mp hzero⟩
    | succ k hk ih =>
        intro hkj
        have hk' := ih (by omega)
        obtain ⟨deed, hdoes, hmoves⟩ := step_moves caller r (c k)
        rw [hstep]
        refine hk'.moves hmoves fun hdrops => hnone ?_
        refine ⟨k, by omega, by omega, ⟨deed, hdoes, hdrops⟩, hk'.bound, ?_⟩
        show ((c (k + 1)).world.registry r).object? name = none
        rw [hstep]
        exact Moment.object?_of_drops hmoves hdrops
  refine (hsettled j hij le_rfl).ended ?_
  rw [(hcreates j hj).1]
  exact List.mem_cons_self

/-! ### What a request yields -/

section Yields

variable {role : Role} {stack : Stack S α role}

/-- A report to an observer that leaves a name as it is bound. -/
lemma higherUntil_report {event : Option Event} {next : Activity S (role.Result S α)}
    (hobs : ∀ e, event = some e → ∀ o w w', Ends caller (caller.observer o e) w () w' →
      (w'.registry r).object? name = (w.registry r).object? name) (w : World S) :
    HigherUntil caller stack.depth (fun d => ∃ w', d = ⟨role, next, stack, w'⟩ ∧
        (w'.registry r).object? name = (w.registry r).object? name)
      (report caller r event next stack w) := by
  cases event with
  | none => exact .now ⟨w, rfl, rfl⟩
  | some e =>
      cases ho : (w.registry r).observer with
      | none =>
          simp only [report, ho]
          exact .now ⟨w.write (.event r e), rfl, rfl⟩
      | some o =>
          simp only [report, ho]
          have hdepth : stack.depth < (Stack.observing next stack).depth := Nat.lt_succ_self _
          refine (higherUntil_script (caller.observer o e) hdepth _).trans ?_
          rintro d ⟨⟨⟩, w', hends, rfl⟩
          have hr : (w'.registry r).object? name =
              ((w.write (.event r e)).registry r).object? name := hobs e rfl o _ w' hends
          exact .head hdepth (.now ⟨w', rfl, hr⟩)

/-- **A request yields what is bound**, when an observer that is told of the creation leaves the
name as it is bound. -/
lemma higherUntil_demand
    (hobs : ∀ o w w', Ends caller (caller.observer o (.created name)) w () w' →
      (w'.registry r).object? name = (w.registry r).object? name)
    (factory : S.Factory) (next : Except Error S.Object → Script S (role.Result S α))
    (w : World S) :
    HigherUntil caller stack.depth (fun d => ∃ answer w',
        d = ⟨role, .script (next answer), stack, w'⟩ ∧
          ∀ o, answer = .ok o → (w'.registry r).object? name = some o)
      (step caller ⟨role, .script (.demand r name factory next), stack, w⟩) := by
  cases hdemand : (w.registry r).demand name with
  | answered answer notices =>
      simp only [step, stepScript, hdemand]
      refine .now ⟨answer, w.log r notices, rfl, ?_⟩
      rintro o rfl
      exact Registry.object?_of_demand_eq_answered hdemand
  | create g opened =>
      simp only [step, stepScript, hdemand]
      have hdepth : stack.depth < (Stack.creating r name opened next stack).depth :=
        Nat.lt_succ_self _
      refine (higherUntil_script (caller.factory factory) hdepth _).trans ?_
      rintro d ⟨result, w₁, -, rfl⟩
      refine .head hdepth ?_
      let change := (w₁.registry r).finishCreation name opened result
      have hreport : ∀ e, change.event = some e → e = .created name := fun e he =>
        Registry.eq_created_of_event_finishCreation he
      refine (higherUntil_report (fun e he => hreport e he ▸ hobs) (w₁.carry r change)).trans ?_
      rintro d ⟨w₂, rfl, hr⟩
      refine .now ⟨change.answer, w₂, rfl, fun o ho => ?_⟩
      rw [hr, World.registry_carry]
      exact Registry.object?_of_answer_finishCreation ho

end Yields

/-- **At most once**. Between any two steps of a run that report the creation of a name that is not
excluded, there is a step that drops it. And a request, at whatever depth of whatever run, is never
left, or is left with an answer, and an object that is the answer is the one that is bound then, if
an observer that is told of the creation leaves the name as it is bound. -/
theorem created_once (r : S.Index) (name : Name) :
    (∀ {α : Type} (s : Script S α) (w : World S) (i j : ℕ), i < j →
      (∀ k ≤ j, name ∉ ((run caller k (Config.start s w)).world.registry r).excluded) →
      (run caller i (Config.start s w)).Creates caller r name →
      (run caller j (Config.start s w)).Creates caller r name →
      ∃ k, i < k ∧ k < j ∧ (run caller k (Config.start s w)).Drops r name ∧
        (((run caller k (Config.start s w)).world.registry r).object? name).isSome ∧
        ((run caller (k + 1) (Config.start s w)).world.registry r).object? name = none) ∧
    ((∀ o w w', Ends caller (caller.observer o (.created name)) w () w' →
        (w'.registry r).object? name = (w.registry r).object? name) →
      ∀ {α : Type} {role : Role} (factory : S.Factory)
        (next : Except Error S.Object → Script S (role.Result S α)) (stack : Stack S α role)
        (w : World S),
        HigherUntil caller stack.depth (fun d => ∃ answer w',
            d = ⟨role, .script (next answer), stack, w'⟩ ∧
              ∀ o, answer = .ok o → (w'.registry r).object? name = some o)
          (step caller ⟨role, .script (.demand r name factory next), stack, w⟩)) :=
  ⟨fun _ _ _ _ hij htracked hi hj => exists_drops_between hij htracked hi hj,
    fun hobs _ _ factory next _ w => higherUntil_demand hobs factory next w⟩

/-! ### A name that is created twice -/

/-- One observed registry, and one factory. -/
def twiceSetup : Setup := ⟨.basic, 1, Unit, Empty, Unit, Unit, Empty⟩

/-- The number of the registry. -/
def twiceIndex : twiceSetup.Index := Fin.mk 0 Nat.one_pos

/-- The factory makes a new object, and the observer does nothing. -/
def twiceCaller : Caller twiceSetup where
  factory _ := .make (.text "client") fun o => .done (.ok o)
  disposer d := d.elim
  observer _ _ := .done ()

/-- An observed registry as the only one of a world. -/
def twiceWorld : World twiceSetup := ⟨#v[{ observer := some () }], (), 0, []⟩

/-- The client is created, removed, and created again. -/
def twice : Script twiceSetup (Except Error twiceSetup.Object) :=
  .demand twiceIndex "client" () fun _ => .call twiceIndex (.remove "client") fun _ =>
    Script.obtain twiceIndex "client" ()

/-- The client is dropped between its two creations, and what is asked for first is what is bound
after its creation. -/
theorem created_once_twice :
    (∀ k ≤ 8, "client" ∉ ((run twiceCaller k (Config.start twice twiceWorld)).world.registry
      twiceIndex).excluded) ∧
    (run twiceCaller 2 (Config.start twice twiceWorld)).Creates twiceCaller twiceIndex "client" ∧
    (run twiceCaller 8 (Config.start twice twiceWorld)).Creates twiceCaller twiceIndex "client" ∧
    (∃ k, 2 < k ∧ k < 8 ∧
      (run twiceCaller k (Config.start twice twiceWorld)).Drops twiceIndex "client") ∧
    (∀ o w w', Ends twiceCaller (twiceCaller.observer o (.created "client")) w () w' →
      (w'.registry twiceIndex).object? "client" = (w.registry twiceIndex).object? "client") ∧
    ∃ w', Ends twiceCaller (Script.obtain twiceIndex "client" ()) twiceWorld
        (.ok ⟨0, .text "client"⟩) w' ∧
      (w'.registry twiceIndex).object? "client" = some ⟨0, .text "client"⟩ := by
  have htracked : ∀ k ≤ 8, "client" ∉ ((run twiceCaller k
      (Config.start twice twiceWorld)).world.registry twiceIndex).excluded := by decide +kernel
  have hi : (run twiceCaller 2 (Config.start twice twiceWorld)).Creates twiceCaller twiceIndex
      "client" := by rfl
  have hj : (run twiceCaller 8 (Config.start twice twiceWorld)).Creates twiceCaller twiceIndex
      "client" := by rfl
  have hobs : ∀ o w w', Ends twiceCaller (twiceCaller.observer o (.created "client")) w () w' →
      (w'.registry twiceIndex).object? "client" = (w.registry twiceIndex).object? "client" := by
    intro o w w' h
    obtain ⟨-, rfl⟩ := (Ends.done () w).unique h
    rfl
  have hresult : (run twiceCaller 4 (Config.start (Script.obtain twiceIndex "client" ())
      twiceWorld)).result? = some (.ok ⟨0, .text "client"⟩) := by rfl
  obtain ⟨honce, hyields⟩ := @created_once twiceSetup twiceCaller twiceIndex "client"
  obtain ⟨k, hik, hkj, hdrops, -, -⟩ := honce twice twiceWorld 2 8 (by decide) htracked hi hj
  refine ⟨htracked, hi, hj, ⟨k, hik, hkj, hdrops⟩, hobs, _,
    Ends.of_result? hresult, ?_⟩
  rcases hyields hobs () Script.done Stack.bottom twiceWorld with
    hforever | ⟨k, -, answer, w', hk, hbound⟩
  · exact absurd (hforever 3) (by decide)
  · have hanswer : Ends twiceCaller (Script.obtain twiceIndex "client" ()) twiceWorld answer w' :=
      Reaches.head rfl ⟨k, hk⟩
    obtain ⟨rfl, rfl⟩ := (Ends.of_result? hresult).unique hanswer
    exact hbound _ rfl

end InstanceRegistry
