import InstanceRegistry.Proofs.Creation.Once

/-!
How long a name stays bound to its object. Nothing but a drop takes the object away, and nothing but
the end of a creation puts another one in its place: a creation of the name that was under way when
the object was bound.

* `Config.Commits`, `Config.Binds`: the steps that bind an object;
* `Config.Yields`: what lookups and requests yield;
* `Config.object?_step`: what a step does to a bound name;
* `binding_persists`: a name stays bound to its object exactly as long as no creation ends with
  another one;
* `binding_persists_same`, `binding_replaced`: a factory that binds its own name, and ends with the
  object that it bound or with another one.
-/

namespace InstanceRegistry

variable {S : Setup} {α : Type} {caller : Caller S} {r : S.Index} {name : Name} {o : S.Object}

/-! ### Steps that bind an object -/

/-- The next step ends a creation of the name, and binds the object. -/
def Config.Commits (r : S.Index) (name : Name) (o : S.Object) (c : Config S α) : Prop :=
  ∃ opened result, c.Does r (.leave name opened result) ∧
    ((c.world.registry r).finishCreation name opened result).event = some (.created name) ∧
    ((c.world.registry r).finishCreation name opened result).answer = .ok o

/-- The next step binds the object to the name: the object is registered, or a creation ends with
it. -/
def Config.Binds (r : S.Index) (name : Name) (o : S.Object) (c : Config S α) : Prop :=
  (c.Does r (.update (.register name o)) ∧
    ((c.world.registry r).register name o).answer = .ok .registered) ∨ c.Commits r name o

namespace Config

variable {c : Config S α}

/-- The end of a creation binds what it yields. -/
lemma Commits.object?_step (h : c.Commits r name o) :
    ((step caller c).world.registry r).object? name = some o := by
  obtain ⟨opened, result, hdoes, -, hanswer⟩ := h
  obtain ⟨names, -, hmoment⟩ := hdoes.moment_leave caller
  show ((step caller c).moment r).registry.object? name = some o
  rw [hmoment]
  exact Registry.object?_of_answer_finishCreation hanswer

lemma Binds.object?_step (h : c.Binds r name o) :
    ((step caller c).world.registry r).object? name = some o := by
  rcases h with ⟨hdoes, hanswer⟩ | hcommits
  · show ((step caller c).moment r).registry.object? name = some o
    rw [hdoes.moment_update]
    exact Registry.object?_register hanswer
  · exact hcommits.object?_step

/-- The name of a creation that ends was being created. -/
lemma Commits.mem_creations (h : c.Commits r name o) : name ∈ c.stack.creations r := by
  obtain ⟨opened, result, hdoes, -, -⟩ := h
  cases hdoes
  show name ∈ if r = r then name :: _ else _
  rw [if_pos rfl]
  exact List.mem_cons_self

end Config

/-! ### A step from a bound name -/

/-- Only the end of a creation puts another object in the place of a bound one, if it is not
dropped. -/
lemma Moment.object?_moves {m m' : Moment S} {deed : Deed S}
    (hbound : m.registry.object? name = some o) (hmoves : m.Moves deed m')
    (hdrops : ¬ deed.Drops name) :
    m'.registry.object? name = some o ∨ ∃ opened result o', deed = .leave name opened result ∧
      o' ≠ o ∧ (m.registry.finishCreation name opened result).event = some (.created name) ∧
      (m.registry.finishCreation name opened result).answer = .ok o' := by
  cases hmoves with
  | idle => exact Or.inl hbound
  | update u =>
      obtain ⟨hremove, hclear⟩ := Deed.ne_of_not_drops_update hdrops
      exact Or.inl (Registry.object?_apply hbound hremove hclear)
  | take hlookup =>
      left
      rw [Registry.eq_of_lookup_eq_expose hlookup]
      exact hbound
  | expose other factory result =>
      left
      rw [← hbound]
      exact Registry.object?_finishExposure m.registry other name factory result
  | enter hdemand =>
      left
      obtain ⟨-, -, -, -, hobjects⟩ := Registry.exists_mark_of_demand hdemand
      rw [Registry.object?, hobjects]
      exact hbound
  | @leave names other opened result hcreations =>
      rcases Registry.finishCreation_cases m.registry other opened result with
        ⟨o', hanswer, hevent, hobjects⟩ | ⟨-, hobjects, -⟩
      · by_cases hother : other = name
        · subst hother
          by_cases ho : o' = o
          · subst ho
            exact Or.inl (Registry.object?_of_answer_finishCreation hanswer)
          · exact Or.inr ⟨opened, result, o', rfl, ho, hevent, hanswer⟩
        · left
          show (m.registry.finishCreation other opened result).registry.objects.get? name = some o
          rw [hobjects, NameMap.get?_insert_of_ne _ (Ne.symm hother)]
          exact hbound
      · left
        show (m.registry.finishCreation other opened result).registry.objects.get? name = some o
        rw [hobjects]
        exact hbound
  | announce => exact Or.inl hbound
  | task t =>
      obtain ⟨hdestroy, hreset⟩ := Deed.ne_of_not_drops_task hdrops
      exact Or.inl (Registry.object?_perform hbound hdestroy hreset)
  | fail other failure => exact Or.inl hbound

namespace Config

variable {c : Config S α}

/-- A step that does not drop a bound name leaves its object, or ends a creation of the name with
another one. -/
lemma object?_step (hbound : (c.world.registry r).object? name = some o)
    (hdrops : ¬ c.Drops r name) :
    ((step caller c).world.registry r).object? name = some o ∨
      ∃ o', o' ≠ o ∧ c.Commits r name o' := by
  obtain ⟨deed, hdoes, hmoves⟩ := step_moves caller r c
  have hbound' : (c.moment r).registry.object? name = some o := hbound
  rcases Moment.object?_moves hbound' hmoves fun h => hdrops ⟨deed, hdoes, h⟩ with
    hkept | ⟨opened, result, o', rfl, hne, hevent, hanswer⟩
  · exact Or.inl hkept
  · exact Or.inr ⟨o', hne, opened, result, hdoes, hevent, hanswer⟩

/-- What the next step yields for the name is the object: a lookup or a request, which runs no
factory, and a creation that ends with the object that appeared meanwhile. -/
structure Yields (caller : Caller S) (r : S.Index) (name : Name) (o : S.Object) (c : Config S α) :
    Prop where
  lookup : ∀ {role : Role} (early : Bool)
    (next : Except Error (Option S.Object) → Script S (role.Result S α)) (stack : Stack S α role)
    (w : World S), c = ⟨role, .script (.find r name early next), stack, w⟩ →
      step caller c = ⟨role, .script (next (.ok (some o))), stack, w⟩
  request : ∀ {role : Role} (factory : S.Factory)
    (next : Except Error S.Object → Script S (role.Result S α)) (stack : Stack S α role)
    (w : World S), c = ⟨role, .script (.demand r name factory next), stack, w⟩ →
      step caller c = ⟨role, .script (next (.ok o)), stack, w⟩
  appeared : ∀ {opened : Bool} {result : Except Error S.Object} {o' : S.Object},
    c.Does r (.leave name opened result) →
      ((c.world.registry r).finishCreation name opened result).event = none →
      ((c.world.registry r).finishCreation name opened result).answer = .ok o' → o' = o

lemma yields_of_bound (hbound : (c.world.registry r).object? name = some o) :
    c.Yields caller r name o where
  lookup early next stack w hc := by
    subst hc
    simp only [step, stepScript, Registry.lookup_of_bound hbound early]
  request factory next stack w hc := by
    subst hc
    have hlog : w.log r [] = w := by simp [World.log]
    simp only [step, stepScript, Registry.demand_of_bound hbound, hlog]
  appeared {opened result o'} _ hevent hanswer := by
    rcases Registry.finishCreation_cases (c.world.registry r) name opened result with
      ⟨_, _, hcreated, _⟩ | ⟨_, _, hobject⟩
    · exact absurd (hcreated.symm.trans hevent) (by simp)
    · exact Option.some.inj ((hobject o' hanswer).symm.trans hbound)

end Config

/-! ### Runs -/

/-- **How long a binding persists**: once an object is bound to a name, and until the name is
dropped, the name stays bound to that object and all lookups and requests yield it, exactly if every
creation of the name that ends with an object ends with that one. None ends if none was under way
when the object was bound. -/
theorem binding_persists (r : S.Index) (name : Name) (o : S.Object) (s : Script S α) (w : World S)
    (i j : ℕ) (hbinds : (run caller i (Config.start s w)).Binds r name o)
    (hkept : ∀ k, i < k → k < j → ¬ (run caller k (Config.start s w)).Drops r name) :
    ((∀ k, i < k → k < j → ∀ o', (run caller k (Config.start s w)).Commits r name o' → o' = o) ↔
      ∀ k, i < k → k ≤ j →
        ((run caller k (Config.start s w)).world.registry r).object? name = some o ∧
          (run caller k (Config.start s w)).Yields caller r name o) ∧
    (name ∉ (run caller (i + 1) (Config.start s w)).stack.creations r →
      ∀ k, i < k → k < j → ∀ o', ¬ (run caller k (Config.start s w)).Commits r name o') := by
  have hnext : ∀ k, run caller (k + 1) (Config.start s w) =
      step caller (run caller k (Config.start s w)) := fun k => run_succ' caller k _
  have hfirst : ((run caller (i + 1) (Config.start s w)).world.registry r).object? name =
      some o := by
    rw [hnext]
    exact hbinds.object?_step
  refine ⟨⟨fun hsame k hik hkj => ?_, fun hbound k hik hkj o' hcommits => ?_⟩, fun hended => ?_⟩
  · have hbound : ((run caller k (Config.start s w)).world.registry r).object? name = some o := by
      refine run_preserves (fun c => (c.world.registry r).object? name = some o)
        (Config.start s w) hfirst (fun k hik hkj hk => ?_) k hik hkj
      rcases Config.object?_step hk (hkept k hik hkj) with hstays | ⟨o', hne, hcommits⟩
      · exact hstays
      · exact absurd (hsame k hik hkj o' hcommits) hne
    exact ⟨hbound, Config.yields_of_bound hbound⟩
  · have hreplaced : ((run caller (k + 1) (Config.start s w)).world.registry r).object? name =
        some o' := by
      rw [hnext]
      exact hcommits.object?_step
    exact Option.some.inj (hreplaced.symm.trans (hbound (k + 1) (by omega) hkj).1)
  · -- no creation of a bound name starts
    intro k hik hkj o' hcommits
    have hsettled : Moment.Settled name ((run caller k (Config.start s w)).moment r) := by
      refine run_preserves (fun c => Moment.Settled name (c.moment r)) (Config.start s w)
        ⟨Option.isSome_iff_exists.mpr ⟨o, hfirst⟩, hended⟩ (fun k hik hkj hk => ?_) k hik hkj.le
      obtain ⟨deed, hdoes, hmoves⟩ := step_moves caller r (run caller k (Config.start s w))
      exact hk.moves hmoves fun hdrops => hkept k hik hkj ⟨deed, hdoes, hdrops⟩
    exact hsettled.ended hcommits.mem_creations

/-! ### Factories that bind their own name -/

/-- One registry, and two factories. -/
def selfBindingSetup : Setup := ⟨.basic, 1, Bool, Empty, Empty, Unit, Empty⟩

/-- The number of the registry. -/
def selfBindingIndex : selfBindingSetup.Index := Fin.mk 0 Nat.one_pos

/-- Both factories register an object under the name that they are asked for. One ends with that
object, the other one with a new object. -/
def selfBindingCaller : Caller selfBindingSetup where
  factory same := .make (.text "first") fun first =>
    .call selfBindingIndex (.register "client" first) fun _ =>
      .make (.text "second") fun second => .done (.ok (cond same first second))
  disposer d := d.elim
  observer o _ := o.elim

/-- A new registry as the only one of a world. -/
def selfBindingWorld : World selfBindingSetup := ⟨#v[{}], (), 0, []⟩

/-- The client is created, and then looked up. -/
def selfBinding (same : Bool) :
    Script selfBindingSetup (Except Error (Option selfBindingSetup.Object)) :=
  .demand selfBindingIndex "client" same fun _ => Script.lookup selfBindingIndex "client" true

/-- The run of the script. -/
def selfBindingRun (same : Bool) (k : ℕ) :
    Config selfBindingSetup (Except Error (Option selfBindingSetup.Object)) :=
  run selfBindingCaller k (Config.start (selfBinding same) selfBindingWorld)

lemma binds_selfBinding (same : Bool) :
    (selfBindingRun same 2).Binds selfBindingIndex "client" ⟨0, .text "first"⟩ :=
  Or.inl ⟨by cases same <;> exact .update _, by cases same <;> rfl⟩

/-- Nothing drops the client between its registration and the end of its creation. -/
lemma not_drops_selfBinding (same : Bool) {k : ℕ} (hk : 2 < k) (hk' : k < 5) :
    ¬ (selfBindingRun same k).Drops selfBindingIndex "client" := by
  rintro ⟨deed, hdoes, hdrops⟩
  obtain rfl | rfl : k = 3 ∨ k = 4 := by omega
  · change Config.Does _ ⟨.factory, .script (.make _ _), _, _⟩ _ at hdoes
    cases hdoes
    exact hdrops
  · change Config.Does _ ⟨.factory, .script (.done _), .creating _ _ _ _ _, _⟩ _ at hdoes
    cases hdoes <;> exact hdrops

/-- A factory that ends with the object that it registered leaves the client bound to it. -/
theorem binding_persists_same :
    (selfBindingRun true 2).Binds selfBindingIndex "client" ⟨0, .text "first"⟩ ∧
    (∀ k, 2 < k → k < 5 → ¬ (selfBindingRun true k).Drops selfBindingIndex "client") ∧
    (∀ k, 2 < k → k < 5 → ∀ o', (selfBindingRun true k).Commits selfBindingIndex "client" o' →
      o' = ⟨0, .text "first"⟩) ∧
    ∀ k, 2 < k → k ≤ 5 →
      ((selfBindingRun true k).world.registry selfBindingIndex).object? "client" =
          some ⟨0, .text "first"⟩ ∧
        (selfBindingRun true k).Yields selfBindingCaller selfBindingIndex "client"
          ⟨0, .text "first"⟩ := by
  have hkept : ∀ k, 2 < k → k < 5 →
      ¬ (selfBindingRun true k).Drops selfBindingIndex "client" :=
    fun k hk hk' => not_drops_selfBinding true hk hk'
  have hsame : ∀ k, 2 < k → k < 5 → ∀ o',
      (selfBindingRun true k).Commits selfBindingIndex "client" o' → o' = ⟨0, .text "first"⟩ := by
    intro k hk hk' o' hcommits
    have hnext : ((step selfBindingCaller (selfBindingRun true k)).world.registry
        selfBindingIndex).object? "client" = some o' := hcommits.object?_step
    obtain rfl | rfl : k = 3 ∨ k = 4 := by omega
    · exact (Option.some.inj hnext).symm
    · exact (Option.some.inj hnext).symm
  exact ⟨binds_selfBinding true, hkept, hsame,
    (binding_persists selfBindingIndex "client" ⟨0, .text "first"⟩ (selfBinding true)
      selfBindingWorld 2 5 (binds_selfBinding true) hkept).1.mp hsame⟩

/-- A factory that ends with a new object puts it in the place of the one that it registered, though
nothing drops the client. -/
theorem binding_replaced :
    (selfBindingRun false 2).Binds selfBindingIndex "client" ⟨0, .text "first"⟩ ∧
    (∀ k, 2 < k → k < 5 → ¬ (selfBindingRun false k).Drops selfBindingIndex "client") ∧
    (selfBindingRun false 4).Commits selfBindingIndex "client" ⟨1, .text "second"⟩ ∧
    ((selfBindingRun false 5).world.registry selfBindingIndex).object? "client" =
      some ⟨1, .text "second"⟩ ∧
    (selfBindingRun false 6).result? = some (.ok (some ⟨1, .text "second"⟩)) ∧
    (⟨1, .text "second"⟩ : selfBindingSetup.Object) ≠ ⟨0, .text "first"⟩ :=
  ⟨binds_selfBinding false, fun _ hk hk' => not_drops_selfBinding false hk hk',
    ⟨true, .ok ⟨1, .text "second"⟩, .leave _ _ _, rfl, rfl⟩, rfl, rfl, by decide⟩

end InstanceRegistry
