import InstanceRegistry.Proofs.Run.Answers
import InstanceRegistry.Proofs.Run.Nesting
import InstanceRegistry.Proofs.Run.Pending

/-!
The ban on creations while all names are being destroyed. It begins with the first task of that
destruction and is kept in one flag, which every destruction of all names lifts at its end, one that
a disposer has called for as well.

* `Registry.Forbids`, `Registry.forbids_iff`: no request starts a factory;
* `Config.Begins`, `Config.Lifts`: the steps that set the flag, and those that reset it;
* `inDestruction_step`: the flag after a step;
* `Spans`: the destruction of all names goes on, whatever runs in between;
* `creations_forbidden`: when creations are forbidden, and that they are all along a destruction in
  which no other one begins and the caches are not cleared;
* `creations_forbidden_asking`, `creation_within_destruction`: a disposer that asks for a name, and
  one that destroys everything before.
-/

namespace InstanceRegistry

variable {S : Setup} {α : Type} {caller : Caller S} {r : S.Index}

/-! ### The ban -/

namespace Registry

variable {g : Registry S} {name : Name}

/-- Every request is answered at once: with the object that is bound, or else it is refused because
creations are forbidden. -/
def Forbids (g : Registry S) : Prop :=
  ∀ name, g.demand name = .answered
    (match g.object? name with
    | some object => .ok object
    | none => .error (.creationForbidden name)) []

/-- There is always a name that is neither bound nor marked. -/
lemma exists_fresh (g : Registry S) : ∃ name, g.object? name = none ∧ name ∉ g.inCreation := by
  obtain ⟨name, hname⟩ := Infinite.exists_notMem_finset
    (g.objects.names.toFinset ∪ g.inCreation.names.toFinset)
  rw [Finset.mem_union, List.mem_toFinset, List.mem_toFinset, not_or] at hname
  refine ⟨name, Option.not_isSome_iff_eq_none.mp fun hbound => hname.1 ?_, hname.2⟩
  exact NameMap.isSome_get?_iff.mp hbound

lemma forbids_iff : g.Forbids ↔ g.inDestruction = true := by
  constructor
  · intro hforbids
    by_contra hlive
    rw [Bool.not_eq_true] at hlive
    obtain ⟨name, hbound, hmark⟩ := g.exists_fresh
    obtain ⟨g', opened, hcreate⟩ := exists_demand_eq_create hbound hlive hmark
    rw [hforbids name] at hcreate
    cases hcreate
  · intro hdestruction name
    cases hbound : g.object? name with
    | none => simp only [demand, hbound, hdestruction, if_true]
    | some object => exact demand_of_bound hbound

/-- A request that is forbidden starts no factory, and changes nothing. -/
lemma Forbids.step_demand {w : World S} (h : (w.registry r).Forbids) {role : Role} (name : Name)
    (factory : S.Factory) (next : Except Error S.Object → Script S (role.Result S α))
    (stack : Stack S α role) (hbound : (w.registry r).object? name = none) :
    step caller ⟨role, .script (.demand r name factory next), stack, w⟩ =
      ⟨role, .script (next (.error (.creationForbidden name))), stack, w⟩ := by
  have hlog : w.log r [] = w := by simp [World.log]
  simp only [step, stepScript, h name, hbound, hlog]

end Registry

/-! ### The flag -/

/-- The flag stays as it is unless it is set, or reset at the end of a destruction or together with
the caches. -/
lemma Moment.Moves.inDestruction_eq {m m' : Moment S} {deed : Deed S} (h : m.Moves deed m')
    (hall : deed ≠ .task .destroyAll) (hclear : deed ≠ .update .clear)
    (hreset : deed ≠ .task .reset) :
    m'.registry.inDestruction = m.registry.inDestruction := by
  cases deed with
  | update u =>
      cases h
      exact (Registry.flag_disposers_apply _ u).1 fun hu => hclear (congrArg Deed.update hu)
  | task t =>
      cases h
      exact Registry.inDestruction_perform _ (fun ht => hall (congrArg Deed.task ht))
        fun ht => hreset (congrArg Deed.task ht)
  | _ => exact (h.agreesOutside (by simp) (by simp)).inDestruction

namespace Config

variable {c : Config S α}

/-- The next step begins the destruction of all names. -/
def Begins (r : S.Index) (c : Config S α) : Prop := c.Does r (.task .destroyAll)

/-- The next step clears the caches, or ends a destruction of all names. -/
def Lifts (r : S.Index) (c : Config S α) : Prop :=
  c.Does r (.update .clear) ∨ c.Does r (.task .reset)

/-- The ban is in force after a step that begins the destruction of all names, and stays in force
until it is lifted. -/
lemma inDestruction_step : ((step caller c).world.registry r).inDestruction = true ↔
    c.Begins r ∨ (c.world.registry r).inDestruction = true ∧ ¬ c.Lifts r := by
  by_cases hbegins : c.Begins r
  · have hnext : ((step caller c).world.registry r).inDestruction = true := by
      show ((step caller c).moment r).registry.inDestruction = true
      rw [hbegins.moment_task caller]
      rfl
    exact iff_of_true hnext (Or.inl hbegins)
  by_cases hlifts : c.Lifts r
  · have hnext : ((step caller c).moment r).registry.inDestruction = false := by
      rcases hlifts with hclear | hreset
      · rw [hclear.moment_update caller]
        rfl
      · rw [hreset.moment_task caller]
        rfl
    show ((step caller c).moment r).registry.inDestruction = true ↔ _
    simp [hnext, hbegins, hlifts]
  · obtain ⟨deed, hdoes, hmoves⟩ := step_moves caller r c
    have hsame : ((step caller c).world.registry r).inDestruction =
        (c.world.registry r).inDestruction :=
      hmoves.inDestruction_eq (by rintro rfl; exact hbegins hdoes)
        (by rintro rfl; exact hlifts (Or.inl hdoes)) (by rintro rfl; exact hlifts (Or.inr hdoes))
    simp [hsame, hbegins, hlifts]

end Config

/-! ### Destructions that go on -/

/-- Only the destruction of all names brings about the task that ends it. -/
lemma Registry.reset_not_mem_perform (g : Registry S) {t : Task S} (h : t ≠ .destroyAll) :
    .reset ∉ (g.perform t).answer := by
  cases t with
  | destroyAll => exact absurd rfl h
  | destroy name => simp [perform, beginDestroy]
  | destroyContents name => simp [perform, openContents]
  | _ => exact List.not_mem_nil

variable (caller r) in
/-- The destruction of all names that begins with the next step is not at its end before `k` steps
are done: the task that ends it is left, with the tasks that were left before it began. -/
def Spans (c : Config S α) (k : ℕ) : Prop :=
  ∀ l, 0 < l → l ≤ k → (.reset :: (c.pending r).tail) <:+ (run caller l c).pending r

/-- As long as no other destruction of all names begins, the only task that ends one is the own one
of the destruction that goes on. -/
lemma Spans.exists_pending_eq {c : Config S α} (hbegins : c.Begins r) {k : ℕ}
    (hspans : Spans caller r c k)
    (halone : ∀ l, 0 < l → l < k → ¬ (run caller l c).Begins r) :
    ∀ l, 0 < l → l ≤ k → ∃ ahead,
      (run caller l c).pending r = ahead ++ .reset :: (c.pending r).tail ∧ .reset ∉ ahead := by
  intro l hl
  induction l, hl using Nat.le_induction with
  | base =>
      intro _
      obtain ⟨rest, hpending, hnext⟩ := hbegins.pending_task caller
      refine ⟨(c.world.registry r).disposerNames.reverse.map Task.destroy, ?_, by simp⟩
      rw [run_succ', run, hnext, hpending, List.tail_cons]
      simp [Registry.perform, Registry.beginDestroyAll]
  | succ l hl ih =>
      intro hlk
      obtain ⟨ahead, hpending, hreset⟩ := ih (by omega)
      have hgoes := hspans (l + 1) (by omega) hlk
      rw [run_succ'] at hgoes ⊢
      by_cases htask : ∃ t, (run caller l c).Does r (.task t)
      · obtain ⟨t, ht⟩ := htask
        obtain ⟨rest, hfirst, hnext⟩ := ht.pending_task caller
        have hne : t ≠ .destroyAll := by
          rintro rfl
          exact halone l (by omega) (by omega) ht
        rw [hpending] at hfirst
        cases ahead with
        | nil =>
            -- the destruction would be at its end
            obtain ⟨rfl, rfl⟩ := List.cons.inj hfirst
            rw [hnext] at hgoes
            exact absurd hgoes.length_le (by simp [Registry.perform, Registry.reset])
        | cons first ahead =>
            rw [List.cons_append] at hfirst
            obtain ⟨rfl, hrest⟩ := List.cons.inj hfirst
            refine ⟨(((run caller l c).world.registry r).perform first).answer ++ ahead, ?_,
              fun hmem => ?_⟩
            · rw [hnext, ← hrest, ← List.append_assoc]
            · rcases List.mem_append.mp hmem with hmem | hmem
              · exact Registry.reset_not_mem_perform _ hne hmem
              · exact hreset (List.mem_cons_of_mem _ hmem)
      · rw [not_exists] at htask
        obtain ⟨added, hnext, hroots⟩ := exists_pending_step caller htask
        refine ⟨added ++ ahead, ?_, fun hmem => ?_⟩
        · rw [hnext, hpending, List.append_assoc]
        · rcases List.mem_append.mp hmem with hmem | hmem
          · exact absurd (hroots _ hmem) (by simp [Task.isRoot])
          · exact hreset hmem

/-- As long as no other destruction of all names begins, none ends. -/
lemma Spans.not_does_reset {c : Config S α} (hbegins : c.Begins r) {k : ℕ}
    (hspans : Spans caller r c k)
    (halone : ∀ l, 0 < l → l < k → ¬ (run caller l c).Begins r) {l : ℕ} (hl : 0 < l) (hlk : l < k) :
    ¬ (run caller l c).Does r (.task .reset) := by
  intro hreset
  obtain ⟨ahead, hpending, hnot⟩ := hspans.exists_pending_eq hbegins halone l hl hlk.le
  obtain ⟨rest, hfirst, hnext⟩ := hreset.pending_task caller
  rw [hpending] at hfirst
  cases ahead with
  | nil =>
      have hgoes := hspans (l + 1) (by omega) hlk
      obtain ⟨-, rfl⟩ := List.cons.inj hfirst
      rw [run_succ', hnext] at hgoes
      exact absurd hgoes.length_le (by simp [Registry.perform, Registry.reset])
  | cons first ahead =>
      obtain ⟨rfl, -⟩ := List.cons.inj hfirst
      exact hnot List.mem_cons_self

/-! ### Runs -/

/-- **When creations are forbidden** after the destruction of all names has begun: as long as no
step, since the last one that began such a destruction, has ended one or cleared the caches. What is
forbidden is refused, and starts no factory. So creations are forbidden all along a destruction, if
nothing that runs in between begins another one or clears the caches. -/
theorem creations_forbidden (r : S.Index) (c : Config S α) (hbegins : c.Begins r) (k : ℕ)
    (hk : 0 < k) :
    (((run caller k c).world.registry r).Forbids ↔
      ∃ i < k, (run caller i c).Begins r ∧ ∀ l, i < l → l < k → ¬ (run caller l c).Lifts r) ∧
      (((run caller k c).world.registry r).Forbids →
        ∀ {role : Role} (name : Name) (factory : S.Factory)
          (next : Except Error S.Object → Script S (role.Result S α)) (stack : Stack S α role),
          ((run caller k c).world.registry r).object? name = none →
          step caller ⟨role, .script (.demand r name factory next), stack,
            (run caller k c).world⟩ =
              ⟨role, .script (next (.error (.creationForbidden name))), stack,
                (run caller k c).world⟩) ∧
      (Spans caller r c k → (∀ l, 0 < l → l < k → ¬ (run caller l c).Begins r) →
        (∀ l, 0 < l → l < k → ¬ (run caller l c).Does r (.update .clear)) →
        ((run caller k c).world.registry r).Forbids) := by
  have hforbids : ((run caller k c).world.registry r).Forbids ↔
      ∃ i < k, (run caller i c).Begins r ∧ ∀ l, i < l → l < k → ¬ (run caller l c).Lifts r := by
    rw [Registry.forbids_iff]
    refine (run_holds_iff (fun d => (d.world.registry r).inDestruction = true) (Config.Begins r)
      (Config.Lifts r) (fun d => Config.inDestruction_step) c k).trans (or_iff_right_of_imp ?_)
    exact fun h => ⟨0, hk, hbegins, fun l _ hl => h.2 l hl⟩
  refine ⟨hforbids, fun h role name factory next stack => h.step_demand name factory next stack,
    fun hspans halone hkept => hforbids.mpr ⟨0, hk, hbegins, fun l hl hlk => ?_⟩⟩
  rintro (hclear | hreset)
  · exact hkept l hl hlk hclear
  · exact hspans.not_does_reset hbegins halone hl hlk hreset

/-! ### A disposer that asks for a name -/

/-- One registry, one factory, and two disposers. -/
def askingLateSetup : Setup := ⟨.basic, 1, Unit, Bool, Empty, Unit, Empty⟩

/-- The number of the registry. -/
def askingLateIndex : askingLateSetup.Index := Fin.mk 0 Nat.one_pos

/-- Both disposers ask for the client. One of them destroys everything before it does so. -/
def askingLateCaller : Caller askingLateSetup where
  factory _ := .make (.text "client") fun o => .done (.ok o)
  disposer
    | false => .demand askingLateIndex "client" () fun _ => .done (.ok ())
    | true => .tearDownAll askingLateIndex <|
        .demand askingLateIndex "client" () fun _ => .done (.ok ())
  observer o _ := o.elim

/-- A registry with a disposer for the server as the only one of a world. -/
def askingLateWorld (nested : Bool) : World askingLateSetup :=
  ⟨#v[{ disposers := NameMap.empty.insert "server" nested }], (), 0, []⟩

/-- The run in which everything is destroyed. -/
def askingLateRun (nested : Bool) (k : ℕ) : Config askingLateSetup Unit :=
  run askingLateCaller k (Config.start (Script.destroyAll askingLateIndex)
    (askingLateWorld nested))

/-- The client is refused to a disposer that does nothing else, while the destruction goes on. -/
theorem creations_forbidden_asking :
    (askingLateRun false 1).Begins askingLateIndex ∧
    Spans askingLateCaller askingLateIndex (askingLateRun false 1) 3 ∧
    (∀ l, 0 < l → l < 3 →
      ¬ (run askingLateCaller l (askingLateRun false 1)).Begins askingLateIndex) ∧
    (∀ l, 0 < l → l < 3 →
      ¬ (run askingLateCaller l (askingLateRun false 1)).Does askingLateIndex (.update .clear)) ∧
    (run askingLateCaller 3 (askingLateRun false 1)).Answers askingLateIndex "client"
      (.error (.creationForbidden "client")) ∧
    (askingLateRun false 10).result? = some () := by
  have hbegins : (askingLateRun false 1).Begins askingLateIndex := .task .destroyAll
  have hspans : Spans askingLateCaller askingLateIndex (askingLateRun false 1) 3 := by
    intro l hl hl'
    interval_cases l <;> exact List.suffix_iff_eq_drop.mpr rfl
  have halone : ∀ l, 0 < l → l < 3 →
      ¬ (run askingLateCaller l (askingLateRun false 1)).Begins askingLateIndex := by
    intro l hl hl' h
    interval_cases l <;> cases h
  have hkept : ∀ l, 0 < l → l < 3 →
      ¬ (run askingLateCaller l (askingLateRun false 1)).Does askingLateIndex
        (.update .clear) := by
    intro l hl hl' h
    interval_cases l <;> cases h
  have hforbids := (creations_forbidden askingLateIndex (askingLateRun false 1) hbegins 3
    (by decide)).2.2 hspans halone hkept
  exact ⟨hbegins, hspans, halone, hkept, .once (hforbids "client"), rfl⟩

/-- A disposer that destroys everything lifts the ban of the destruction that runs it: its request
for the client starts the factory, though that destruction goes on and the caches are not
cleared. -/
theorem creation_within_destruction :
    (askingLateRun true 1).Begins askingLateIndex ∧
    Spans askingLateCaller askingLateIndex (askingLateRun true 1) 8 ∧
    (∀ l < 8, ¬ (run askingLateCaller l (askingLateRun true 1)).Does askingLateIndex
      (.update .clear)) ∧
    (run askingLateCaller 4 (askingLateRun true 1)).Begins askingLateIndex ∧
    (run askingLateCaller 5 (askingLateRun true 1)).Lifts askingLateIndex ∧
    ((run askingLateCaller 7 (askingLateRun true 1)).world.registry askingLateIndex).object?
      "client" = none ∧
    ¬ ((run askingLateCaller 7 (askingLateRun true 1)).world.registry askingLateIndex).Forbids ∧
    (run askingLateCaller 8 (askingLateRun true 1)).role = .factory ∧
    (run askingLateCaller 8 (askingLateRun true 1)).stack.creations askingLateIndex =
      ["client"] := by
  refine ⟨.task .destroyAll, fun l hl hl' => ?_, fun l hl h => ?_, .task .destroyAll,
    Or.inr (.task .reset), rfl, fun hforbids => ?_, rfl, rfl⟩
  · interval_cases l <;> exact List.suffix_iff_eq_drop.mpr rfl
  · interval_cases l <;> cases h
  · have hlive := Registry.forbids_iff.mp hforbids
    exact absurd hlive (by decide +kernel)

end InstanceRegistry
