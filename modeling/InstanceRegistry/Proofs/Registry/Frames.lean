import InstanceRegistry.Proofs.Creation.Steps
import InstanceRegistry.Proofs.Teardown.Tasks

/-!
What the parts of the operations leave as it is: the marks of the names that are being created, the
finished objects, the report of a creation, and all that lies outside of the caches.

* `inCreation_apply`, `inCreation_perform`, `inCreation_finishExposure`: only creations mark names;
* `mem_inCreation_of_demand`, `mem_inCreation_finishCreation`: and each of them only its own;
* `finishCreation_cases`: the end of a creation binds its name and reports it, or neither;
* `object?_apply`, `object?_perform`, `isSome_object?_finishCreation`: a bound name stays bound,
  unless it is dropped;
* `object?_of_answer_finishCreation`, `object?_register`: what a creation yields and what is
  registered is bound;
* `event_apply_ne`, `event_finishExposure_ne`, `event_perform_ne`: nothing else reports a creation;
* `flag_disposers_apply`, `inDestruction_perform`: what operations and tasks do to the flag of a
  destruction, and operations to the disposers;
* `AgreesOutside`: what creations and lookups leave as it is.
-/

namespace InstanceRegistry

variable {S : Setup}

namespace Registry

variable {g g' : Registry S} {name other : Name} {o : S.Object}

/-! ### The marks -/

@[simp] lemma inCreation_apply (g : Registry S) (u : Update S) :
    (g.apply u).registry.inCreation = g.inCreation := by
  cases u with
  | registerAlias name key =>
      simp only [apply, registerAlias]
      split <;> rfl
  | removeAlias key =>
      simp only [apply, removeAlias]
      split <;> rfl
  | resolveAliases resolver =>
      simp only [apply, resolveAliases]
      split <;> rfl
  | register name object =>
      simp only [apply, register]
      split
      · rfl
      · split
        · split <;> rfl
        · rfl
  | provideEarly name factory =>
      simp only [apply, provideEarly]
      split <;> rfl
  | contain outer inner =>
      simp only [apply, contain]
      split <;> rfl
  | _ => rfl

@[simp] lemma inCreation_perform (g : Registry S) (t : Task S) :
    (g.perform t).registry.inCreation = g.inCreation := by
  cases t <;> rfl

@[simp] lemma inCreation_finishExposure (g : Registry S) (name : Name) (factory : S.Factory)
    (result : Except Error S.Object) :
    (g.finishExposure name factory result).registry.inCreation = g.inCreation := by
  cases result with
  | ok object => rfl
  | error e =>
      simp only [finishExposure]
      split <;> rfl

/-- An early factory is all that a lookup takes out. -/
lemma eq_of_lookup_eq_expose {early : Bool} {factory : S.Factory}
    (h : g.lookup name early = .expose factory g') :
    g' = { g with earlyFactories := g.earlyFactories.erase name } := by
  unfold lookup at h
  split at h
  · cases h
  split at h
  · split at h
    · cases h
    split at h
    · split at h
      · cases h
        rfl
      · cases h
    · cases h
  · cases h

/-- A creation marks its name, unless the name is excluded, and touches no finished object. -/
lemma exists_mark_of_demand {opened : Bool} (h : g.demand name = .create g' opened) :
    g.object? name = none ∧ ∃ marked, g.mark name = some marked ∧
      g'.inCreation = marked.inCreation ∧ g'.objects = g.objects := by
  have hopen : ∀ marked : Registry S, marked.openReports.1.inCreation = marked.inCreation ∧
      marked.openReports.1.objects = marked.objects := by
    intro marked
    unfold openReports
    split <;> exact ⟨rfl, rfl⟩
  have hobjects : ∀ marked : Registry S, g.mark name = some marked →
      marked.objects = g.objects := by
    intro marked hmark
    unfold mark at hmark
    split at hmark
    · cases hmark
      rfl
    · split at hmark
      · cases hmark
      · cases hmark
        rfl
  unfold demand at h
  split at h
  · cases h
  · next hnone =>
      split at h
      · cases h
      split at h
      · cases h
      · next marked hmark =>
          cases h
          exact ⟨hnone, marked, hmark, (hopen marked).1,
            (hopen marked).2.trans (hobjects marked hmark)⟩

/-- A name that is not excluded was not being created before, and is now. -/
lemma mem_inCreation_of_demand {opened : Bool} (h : g.demand name = .create g' opened)
    (hexcluded : name ∉ g.excluded) : name ∉ g.inCreation ∧ name ∈ g'.inCreation := by
  obtain ⟨-, marked, hmark, hmarks, -⟩ := exists_mark_of_demand h
  rw [mark, if_neg hexcluded] at hmark
  split at hmark
  · cases hmark
  · next hnot =>
      cases hmark
      refine ⟨hnot, ?_⟩
      rw [hmarks]
      exact NameSet.mem_add.mpr (Or.inl rfl)

lemma mem_inCreation_of_demand_of_mem {opened : Bool} (h : g.demand name = .create g' opened)
    (hother : other ∈ g.inCreation) : other ∈ g'.inCreation := by
  obtain ⟨-, marked, hmark, hmarks, -⟩ := exists_mark_of_demand h
  rw [hmarks]
  unfold mark at hmark
  split at hmark
  · cases hmark
    exact hother
  · split at hmark
    · cases hmark
    · cases hmark
      exact NameSet.mem_add.mpr (Or.inr hother)

/-- What the end of a creation settles with: the registry without the mark of the name. -/
lemma exists_settle_of_finishCreation (g : Registry S) (name : Name) (opened : Bool)
    (result : Except Error S.Object) :
    ∃ h : Registry S, h.objects = g.objects ∧
      (∀ m, m ≠ name → (m ∈ h.inCreation ↔ m ∈ g.inCreation)) ∧
      ((g.finishCreation name opened result =
          { registry := h, answer := .error (.notInCreation name), notices := [.unmarked name] }) ∨
        ∃ reported, g.finishCreation name opened result = h.settle name reported result) := by
  have hclose : (g.closeReports opened).1.objects = g.objects ∧
      (g.closeReports opened).1.inCreation = g.inCreation := by
    cases opened <;> exact ⟨rfl, rfl⟩
  cases hunmark : (g.closeReports opened).1.unmark name with
  | none =>
      refine ⟨(g.closeReports opened).1, hclose.1, fun m _ => by rw [hclose.2], Or.inl ?_⟩
      simp only [finishCreation, hunmark]
  | some unmarked =>
      refine ⟨unmarked, ?_, fun m hm => ?_, Or.inr ⟨(g.closeReports opened).2, ?_⟩⟩
      · unfold unmark at hunmark
        split at hunmark
        · cases hunmark
          exact hclose.1
        · split at hunmark
          · cases hunmark
            exact hclose.1
          · cases hunmark
      · unfold unmark at hunmark
        split at hunmark
        · cases hunmark
          rw [hclose.2]
        · split at hunmark
          · cases hunmark
            show m ∈ ((g.closeReports opened).1.inCreation.erase name) ↔ _
            rw [NameMap.mem_erase, hclose.2]
            exact and_iff_right hm
          · cases hunmark
      · simp only [finishCreation, hunmark]

/-- What comes of the result of a factory: its object is bound, or nothing is. -/
lemma settle_cases (g : Registry S) (name : Name) (reported : List Error)
    (result : Except Error S.Object) :
    (∃ o, g.settle name reported result =
      { registry := g.bind name o, answer := .ok o, event := some (.created name) }) ∨
    ((g.settle name reported result).registry = g ∧ (g.settle name reported result).event = none ∧
      ∀ o, (g.settle name reported result).answer = .ok o → g.object? name = some o) := by
  unfold settle
  split
  · next o => exact Or.inl ⟨o, rfl⟩
  · next reason =>
      right
      split
      · next o ho => exact ⟨rfl, rfl, fun o' h => by cases h; exact ho⟩
      · exact ⟨rfl, rfl, fun o' h => by cases h⟩
  · exact Or.inr ⟨rfl, rfl, fun o' h => by cases h⟩

/-- A creation ends with an object that is bound now, and reports it, or else it binds nothing and
reports nothing. -/
theorem finishCreation_cases (g : Registry S) (name : Name) (opened : Bool)
    (result : Except Error S.Object) :
    (∃ o, (g.finishCreation name opened result).answer = .ok o ∧
      (g.finishCreation name opened result).event = some (.created name) ∧
      (g.finishCreation name opened result).registry.objects = g.objects.insert name o) ∨
    ((g.finishCreation name opened result).event = none ∧
      (g.finishCreation name opened result).registry.objects = g.objects ∧
      ∀ o, (g.finishCreation name opened result).answer = .ok o → g.object? name = some o) := by
  obtain ⟨h, hobjects, -, heq | ⟨reported, heq⟩⟩ :=
    exists_settle_of_finishCreation g name opened result
  · rw [heq]
    exact Or.inr ⟨rfl, hobjects, fun o ho => by cases ho⟩
  · rw [heq]
    rcases settle_cases h name reported result with ⟨o, hsettle⟩ | ⟨hregistry, hevent, hanswer⟩
    · rw [hsettle]
      refine Or.inl ⟨o, rfl, rfl, ?_⟩
      show h.objects.insert name o = _
      rw [hobjects]
    · refine Or.inr ⟨hevent, (congrArg objects hregistry).trans hobjects, fun o ho => ?_⟩
      rw [object?, ← hobjects]
      exact hanswer o ho

lemma mem_inCreation_finishCreation {opened : Bool} {result : Except Error S.Object}
    (hne : other ≠ name) : other ∈ (g.finishCreation name opened result).registry.inCreation ↔
      other ∈ g.inCreation := by
  obtain ⟨h, -, hmarks, heq | ⟨reported, heq⟩⟩ :=
    exists_settle_of_finishCreation g name opened result
  · rw [heq]
    exact hmarks other hne
  · rw [heq, ← hmarks other hne]
    rcases settle_cases h name reported result with ⟨o, hsettle⟩ | ⟨hregistry, -, -⟩
    · rw [hsettle]
      rfl
    · rw [hregistry]

/-! ### The finished objects -/

@[simp] lemma object?_finishExposure (g : Registry S) (name other : Name) (factory : S.Factory)
    (result : Except Error S.Object) :
    (g.finishExposure name factory result).registry.object? other = g.object? other := by
  cases result with
  | ok object => rfl
  | error e =>
      simp only [finishExposure]
      split <;> rfl

/-- A bound name stays bound to its object, unless it is removed or the caches are cleared. -/
lemma object?_apply (hbound : g.object? other = some o) {u : Update S} (hremove : u ≠ .remove other)
    (hclear : u ≠ .clear) : (g.apply u).registry.object? other = some o := by
  cases u with
  | registerAlias name key =>
      simp only [apply, registerAlias]
      split <;> exact hbound
  | removeAlias key =>
      simp only [apply, removeAlias]
      split <;> exact hbound
  | resolveAliases resolver =>
      simp only [apply, resolveAliases]
      split <;> exact hbound
  | register name object =>
      simp only [apply, register]
      split
      · exact hbound
      · split
        · split <;> exact hbound
        · next hnone =>
            have hne : other ≠ name := by
              rintro rfl
              exact absurd (hnone.symm.trans hbound) (by simp)
            exact (object?_bind_of_ne g hne object).trans hbound
  | provideEarly name factory => exact (object?_provideEarly ..).trans hbound
  | remove name =>
      have hne : other ≠ name := fun e => hremove (e ▸ rfl)
      exact (object?_purge_of_ne g hne).trans hbound
  | clear => exact absurd rfl hclear
  | contain outer inner =>
      simp only [apply, contain]
      split <;> exact hbound
  | _ => exact hbound

/-- A bound name stays bound to its object, unless it is destroyed or a destruction of all ends. -/
lemma object?_perform (hbound : g.object? other = some o) {t : Task S}
    (hdestroy : t ≠ .destroy other) (hreset : t ≠ .reset) :
    (g.perform t).registry.object? other = some o := by
  cases t with
  | destroy name =>
      have hne : other ≠ name := fun e => hdestroy (e ▸ rfl)
      exact (object?_purge_of_ne g hne).trans hbound
  | reset => exact absurd rfl hreset
  | _ => exact hbound

/-- A bound name stays bound when a creation ends, though maybe not to its object. -/
lemma isSome_object?_finishCreation {opened : Bool} {result : Except Error S.Object}
    (hbound : (g.object? other).isSome) :
    ((g.finishCreation name opened result).registry.object? other).isSome := by
  rcases finishCreation_cases g name opened result with ⟨o, -, -, hobjects⟩ | ⟨-, hobjects, -⟩
  · rw [object?, hobjects, NameMap.get?_insert]
    split
    · rfl
    · exact hbound
  · rw [object?, hobjects]
    exact hbound

/-- A request that is answered at once with an object is answered with the one that is bound. -/
lemma object?_of_demand_eq_answered {notices : List Notice}
    (h : g.demand name = .answered (.ok o) notices) : g.object? name = some o := by
  unfold demand at h
  split at h
  · next hbound =>
      cases h
      exact hbound
  · split at h
    · cases h
    split at h <;> cases h

/-- What a creation yields is bound. -/
lemma object?_of_answer_finishCreation {opened : Bool} {result : Except Error S.Object}
    (h : (g.finishCreation name opened result).answer = .ok o) :
    (g.finishCreation name opened result).registry.object? name = some o := by
  rcases finishCreation_cases g name opened result with
    ⟨o', hanswer, -, hobjects⟩ | ⟨-, hobjects, hanswer⟩
  · obtain rfl : o' = o := Except.ok.inj (hanswer.symm.trans h)
    rw [object?, hobjects, NameMap.get?_insert, if_pos rfl]
  · rw [object?, hobjects]
    exact hanswer o h

/-- What is registered with success is bound. -/
lemma object?_register {outcome : Outcome} (h : (g.register name o).answer = .ok outcome) :
    (g.register name o).registry.object? name = some o := by
  unfold register at h ⊢
  split at h
  · cases h
  · next hname =>
      rw [if_neg hname]
      split at h
      · next bound hbound =>
          split at h
          · next heq =>
              rw [if_pos heq]
              exact heq ▸ hbound
          · cases h
      · exact object?_bind_self g name o

/-- A registration reports nothing but itself. -/
lemma eq_registered_of_event_register {e : Event} (h : (g.register name o).event = some e) :
    e = .registered name := by
  unfold register at h
  split at h
  · cases h
  split at h
  · split at h <;> cases h
  · exact (Option.some.inj h).symm

/-! ### The report of a creation -/

lemma event_apply_ne (g : Registry S) (u : Update S) (name : Name) :
    (g.apply u).event ≠ some (.created name) := by
  cases u with
  | registerAlias other key =>
      simp only [apply, registerAlias]
      split
      · next registration _ =>
          cases registration with
          | cleared existed => cases existed <;> simp [Registration.event]
          | _ => simp [Registration.event]
      · simp
  | removeAlias key =>
      simp only [apply, removeAlias]
      split <;> simp
  | resolveAliases resolver =>
      simp only [apply, resolveAliases]
      split <;> simp
  | register other object =>
      simp only [apply, register]
      split
      · simp
      · split
        · split <;> simp
        · simp
  | remove other =>
      simp only [apply, remove]
      split <;> simp
  | contain outer inner =>
      simp only [apply, contain]
      split <;> simp [depend]
  | _ => simp [apply, depend]

lemma event_finishExposure_ne (g : Registry S) (other : Name) (factory : S.Factory)
    (result : Except Error S.Object) (name : Name) :
    (g.finishExposure other factory result).event ≠ some (.created name) := by
  cases result <;> simp [finishExposure]

/-- All that the end of a creation reports is that the name is created. -/
lemma eq_created_of_event_finishCreation {opened : Bool} {result : Except Error S.Object}
    {e : Event} (h : (g.finishCreation name opened result).event = some e) : e = .created name := by
  rcases finishCreation_cases g name opened result with ⟨o, -, hcreated, -⟩ | ⟨hnone, -, -⟩
  · exact Option.some.inj (h.symm.trans hcreated)
  · exact absurd (hnone.symm.trans h) (by simp)

lemma event_perform_ne (g : Registry S) (t : Task S) (name : Name) :
    (g.perform t).event ≠ some (.created name) := by
  cases t <;>
    simp [perform, beginDestroy, openContents, forget, beginDestroyAll, reset]

/-! ### Outside of the caches -/

/-- Of the operations, only the one that clears the caches touches the flag, and only the one that
registers a disposer touches the disposers. -/
lemma flag_disposers_apply (g : Registry S) (u : Update S) :
    (u ≠ .clear → (g.apply u).registry.inDestruction = g.inDestruction) ∧
      ((∀ name d, u ≠ .onDestroy name d) → (g.apply u).registry.disposers = g.disposers) := by
  cases u with
  | registerAlias name key =>
      simp only [apply, registerAlias]
      split <;> exact ⟨fun _ => rfl, fun _ => rfl⟩
  | removeAlias key =>
      simp only [apply, removeAlias]
      split <;> exact ⟨fun _ => rfl, fun _ => rfl⟩
  | resolveAliases resolver =>
      simp only [apply, resolveAliases]
      split <;> exact ⟨fun _ => rfl, fun _ => rfl⟩
  | register name object =>
      simp only [apply, register]
      split
      · exact ⟨fun _ => rfl, fun _ => rfl⟩
      · split
        · split <;> exact ⟨fun _ => rfl, fun _ => rfl⟩
        · exact ⟨fun _ => rfl, fun _ => rfl⟩
  | provideEarly name factory =>
      simp only [apply, provideEarly]
      split <;> exact ⟨fun _ => rfl, fun _ => rfl⟩
  | clear => exact ⟨fun h => absurd rfl h, fun _ => rfl⟩
  | contain outer inner =>
      simp only [apply, contain]
      split <;> exact ⟨fun _ => rfl, fun _ => rfl⟩
  | onDestroy name d => exact ⟨fun _ => rfl, fun h => absurd rfl (h name d)⟩
  | _ => exact ⟨fun _ => rfl, fun _ => rfl⟩

/-- Of the tasks, only those at the two ends of the destruction of all names touch the flag. -/
lemma inDestruction_perform (g : Registry S) {t : Task S} (hall : t ≠ .destroyAll)
    (hreset : t ≠ .reset) : (g.perform t).registry.inDestruction = g.inDestruction := by
  cases t with
  | destroyAll => exact absurd rfl hall
  | reset => exact absurd rfl hreset
  | _ => rfl

/-- The registries differ in their caches, marks and reported errors at most. -/
structure AgreesOutside (g h : Registry S) : Prop where
  inDestruction : h.inDestruction = g.inDestruction
  excluded : h.excluded = g.excluded
  disposers : h.disposers = g.disposers
  relations : h.relations = g.relations
  aliases : h.aliases = g.aliases
  observer : h.observer = g.observer

namespace AgreesOutside

lemma refl (g : Registry S) : AgreesOutside g g := ⟨rfl, rfl, rfl, rfl, rfl, rfl⟩

lemma trans {g₁ g₂ g₃ : Registry S} (h : AgreesOutside g₁ g₂) (h' : AgreesOutside g₂ g₃) :
    AgreesOutside g₁ g₃ where
  inDestruction := h'.inDestruction.trans h.inDestruction
  excluded := h'.excluded.trans h.excluded
  disposers := h'.disposers.trans h.disposers
  relations := h'.relations.trans h.relations
  aliases := h'.aliases.trans h.aliases
  observer := h'.observer.trans h.observer

lemma of_lookup {early : Bool} {factory : S.Factory}
    (h : g.lookup name early = .expose factory g') : AgreesOutside g g' :=
  eq_of_lookup_eq_expose h ▸ ⟨rfl, rfl, rfl, rfl, rfl, rfl⟩

lemma finishExposure (g : Registry S) (name : Name) (factory : S.Factory)
    (result : Except Error S.Object) :
    AgreesOutside g (g.finishExposure name factory result).registry := by
  cases result with
  | ok object => exact ⟨rfl, rfl, rfl, rfl, rfl, rfl⟩
  | error e =>
      simp only [Registry.finishExposure]
      split
      · exact refl g
      · exact ⟨rfl, rfl, rfl, rfl, rfl, rfl⟩

lemma of_mark (h : g.mark name = some g') : AgreesOutside g g' := by
  unfold mark at h
  split at h
  · cases h
    exact refl g
  · split at h
    · cases h
    · cases h
      exact ⟨rfl, rfl, rfl, rfl, rfl, rfl⟩

lemma of_unmark (h : g.unmark name = some g') : AgreesOutside g g' := by
  unfold unmark at h
  split at h
  · cases h
    exact refl g
  · split at h
    · cases h
      exact ⟨rfl, rfl, rfl, rfl, rfl, rfl⟩
    · cases h

lemma openReports (g : Registry S) : AgreesOutside g g.openReports.1 := by
  unfold Registry.openReports
  split
  · exact refl g
  · exact ⟨rfl, rfl, rfl, rfl, rfl, rfl⟩

lemma closeReports (g : Registry S) (opened : Bool) :
    AgreesOutside g (g.closeReports opened).1 := by
  cases opened with
  | false => exact refl g
  | true => exact ⟨rfl, rfl, rfl, rfl, rfl, rfl⟩

lemma of_demand {opened : Bool} (h : g.demand name = .create g' opened) : AgreesOutside g g' := by
  unfold demand at h
  split at h
  · cases h
  split at h
  · cases h
  split at h
  · cases h
  · next marked hmark =>
      cases h
      exact (of_mark hmark).trans (openReports marked)

lemma settle (g : Registry S) (name : Name) (reported : List Error)
    (result : Except Error S.Object) :
    AgreesOutside g (g.settle name reported result).registry := by
  rcases settle_cases g name reported result with ⟨o, hsettle⟩ | ⟨hregistry, -, -⟩
  · rw [hsettle]
    exact ⟨rfl, rfl, rfl, rfl, rfl, rfl⟩
  · rw [hregistry]
    exact refl g

lemma finishCreation (g : Registry S) (name : Name) (opened : Bool)
    (result : Except Error S.Object) :
    AgreesOutside g (g.finishCreation name opened result).registry := by
  have hclosed := closeReports g opened
  cases hunmark : (g.closeReports opened).1.unmark name with
  | none =>
      simp only [Registry.finishCreation, hunmark]
      exact hclosed
  | some unmarked =>
      simp only [Registry.finishCreation, hunmark]
      exact (hclosed.trans (of_unmark hunmark)).trans (settle unmarked name _ result)

end AgreesOutside

end Registry

end InstanceRegistry
