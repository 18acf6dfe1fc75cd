import InstanceRegistry.Proofs.Creation.Exclusive
import InstanceRegistry.Proofs.Creation.Once
import InstanceRegistry.Proofs.Run.Answers

/-!
The listing of the known names against the caches. The listing is kept beside the caches, and the
two change together at every step but two: a lookup takes an early factory out of its cache, and its
end puts something back. So what is listed is what is cached or has its early factory outside, as
long as no early factory drops its own name.

* `Registry.Cached`: a name has a finished object, an early factory or an early object;
* `Deed.Adds`, `Config.Adds`: the steps that put a name into a cache and list it;
* `Registry.Relists`, `Moment.relists_moves`: what a deed does to the caches and the listing;
* `switched_known`, `Config.mem_known_step_iff`, `Config.knownNames_step`: which names are listed
  after a step, and in which order;
* `Config.lists_step`: only the early factories that run make a difference;
* `FirstAdded`, `pairwise_knownNames_run`: the first addition of a name since it was last dropped;
* `listing_of_run`: the listing at every moment of every run.
-/

namespace InstanceRegistry

variable {S : Setup} {α : Type} {caller : Caller S} {r : S.Index} {name : Name}

/-! ### Additions -/

/-- The name has a finished object, an early factory or an early object. -/
def Registry.Cached (g : Registry S) (name : Name) : Prop :=
  name ∈ g.objects ∨ name ∈ g.earlyFactories ∨ name ∈ g.earlyReferences

lemma Registry.cached_iff {g : Registry S} : g.Cached name ↔ g.caches name ≠ .absent := by
  simp only [Cached, ← NameMap.isSome_get?_iff, caches, Caches.absent, ne_eq, Caches.mk.injEq,
    not_and_or, ← Option.isSome_iff_ne_none]

/-- The deed puts the name into a cache and lists it: an object is registered with success, an early
factory is installed for a name that is not bound, or a creation ends with an object. -/
def Deed.Adds (g : Registry S) (name : Name) : Deed S → Prop
  | .update (.register other object) =>
    other = name ∧ (g.register other object).answer = .ok .registered
  | .update (.provideEarly other _) => other = name ∧ g.contains other = false
  | .leave other opened result =>
    other = name ∧ (g.finishCreation other opened result).event = some (.created other)
  | _ => False

lemma Deed.Adds.not_drops {g : Registry S} {deed : Deed S} (h : deed.Adds g name) :
    ¬ deed.Drops name := by
  cases deed with
  | update u =>
      cases u with
      | register other object => exact id
      | provideEarly other factory => exact id
      | _ => exact False.elim h
  | leave other opened result => exact id
  | _ => exact False.elim h

/-- The next step puts the name into a cache and lists it. -/
def Config.Adds (r : S.Index) (name : Name) (c : Config S α) : Prop :=
  ∃ deed, c.Does r deed ∧ deed.Adds (c.world.registry r) name

/-! ### What a deed does to the caches and the listing -/

namespace Registry

/-- What becomes of the caches and the listing by a deed: they stay, or one name is put into both,
or one is dropped from both, or all are. -/
inductive Relists (g : Registry S) (deed : Deed S) (g' : Registry S) : Prop
  | kept (hadds : ∀ n, ¬ deed.Adds g n) (hdrops : ∀ n, ¬ deed.Drops n)
      (hknown : g'.known = g.known) (hcaches : g'.caches = g.caches)
  | added (name : Name) (hadds : ∀ n, deed.Adds g n ↔ n = name) (hdrops : ∀ n, ¬ deed.Drops n)
      (hknown : g'.known = g.known.add name) (hcached : g'.Cached name)
      (hothers : ∀ n, n ≠ name → g'.caches n = g.caches n)
  | dropped (name : Name) (hadds : ∀ n, ¬ deed.Adds g n) (hdrops : ∀ n, deed.Drops n ↔ n = name)
      (hknown : g'.known = g.known.erase name) (habsent : g'.caches name = .absent)
      (hothers : ∀ n, n ≠ name → g'.caches n = g.caches n)
  | cleared (hadds : ∀ n, ¬ deed.Adds g n) (hdrops : ∀ n, deed.Drops n) (hknown : g'.known = ∅)
      (habsent : ∀ n, g'.caches n = .absent)

namespace Relists

variable {g g' : Registry S} {deed : Deed S}

/-- A name is listed if it was added, or was listed and not dropped. -/
lemma mem_known_iff (h : g.Relists deed g') :
    name ∈ g'.known ↔ deed.Adds g name ∨ name ∈ g.known ∧ ¬ deed.Drops name := by
  cases h with
  | kept hadds hdrops hknown hcaches => simp [hknown, hadds, hdrops]
  | added other hadds hdrops hknown hcached hothers =>
      rw [hknown, NameSet.mem_add, hadds]
      simp [hdrops]
  | dropped other hadds hdrops hknown habsent hothers =>
      rw [hknown, NameMap.mem_erase, hdrops, and_comm]
      simp [hadds]
  | cleared hadds hdrops hknown habsent =>
      rw [hknown]
      simp [hadds, hdrops, NameMap.mem_def]

/-- A name is cached by the same law as it is listed. -/
lemma cached_iff (h : g.Relists deed g') :
    g'.Cached name ↔ deed.Adds g name ∨ g.Cached name ∧ ¬ deed.Drops name := by
  cases h with
  | kept hadds hdrops hknown hcaches => simp [Registry.cached_iff, hcaches, hadds, hdrops]
  | added other hadds hdrops hknown hcached hothers =>
      by_cases hname : name = other
      · subst hname
        simp [hcached, hadds]
      · simp [Registry.cached_iff, hothers name hname, hadds, hname, hdrops]
  | dropped other hadds hdrops hknown habsent hothers =>
      by_cases hname : name = other
      · subst hname
        simp [Registry.cached_iff, habsent, hadds, hdrops]
      · simp [Registry.cached_iff, hothers name hname, hadds, hname, hdrops]
  | cleared hadds hdrops hknown habsent =>
      simp [Registry.cached_iff, habsent, hadds, hdrops]

/-- The listing keeps its order, and at most one name comes to its end. -/
lemma knownNames (h : g.Relists deed g') :
    g'.knownNames.Sublist g.knownNames ∨ ∃ name, g'.knownNames = g.knownNames ++ [name] := by
  cases h with
  | kept hadds hdrops hknown hcaches =>
      left
      rw [Registry.knownNames, hknown, Registry.knownNames]
  | added other hadds hdrops hknown hcached hothers =>
      rw [Registry.knownNames, hknown, NameSet.names_add]
      split
      · exact Or.inl (List.Sublist.refl _)
      · exact Or.inr ⟨other, rfl⟩
  | dropped other hadds hdrops hknown habsent hothers =>
      left
      rw [Registry.knownNames, hknown, NameMap.names_erase]
      exact List.filter_sublist
  | cleared hadds hdrops hknown habsent =>
      left
      rw [Registry.knownNames, hknown, NameMap.names_empty]
      exact List.nil_sublist _

end Relists

variable {g g' : Registry S}

lemma relists_register (g : Registry S) (name : Name) (o : S.Object) :
    g.Relists (.update (.register name o)) (g.register name o).registry := by
  by_cases hanswer : (g.register name o).answer = .ok .registered
  · have hadds : ∀ n, (Deed.update (.register name o)).Adds g n ↔ n = name :=
      fun n => ⟨fun h => h.1.symm, fun h => ⟨h.symm, hanswer⟩⟩
    have hregistry : (g.register name o).registry = g.bind name o := by
      unfold register at hanswer ⊢
      split at hanswer
      · cases hanswer
      · next hname =>
          rw [if_neg hname]
          split at hanswer
          · split at hanswer <;> cases hanswer
          · rfl
    rw [hregistry]
    refine .added name hadds (fun _ => id) rfl ?_ fun _ hn => caches_bind_of_ne g hn o
    exact cached_iff.mpr (by simp [caches_bind_self, Caches.absent])
  · have hregistry : (g.register name o).registry = g := by
      unfold register at hanswer ⊢
      split
      · rfl
      · next hname =>
          rw [if_neg hname] at hanswer
          split
          · split <;> rfl
          · next hnone => exact absurd (by rw [hnone]) hanswer
    rw [hregistry]
    exact .kept (fun _ h => hanswer h.2) (fun _ => id) rfl rfl

lemma relists_provideEarly (g : Registry S) (name : Name) (factory : S.Factory) :
    g.Relists (.update (.provideEarly name factory)) (g.provideEarly name factory) := by
  cases hbound : g.contains name with
  | true =>
      have hsame : g.provideEarly name factory = g := if_pos hbound
      rw [hsame]
      exact .kept (fun _ h => Bool.noConfusion (hbound.symm.trans h.2)) (fun _ => id) rfl rfl
  | false =>
      have hput : g.provideEarly name factory =
          { g with
            earlyFactories := g.earlyFactories.insert name factory
            earlyReferences := g.earlyReferences.erase name
            known := g.known.add name } := if_neg (by simp [hbound])
      refine .added name (fun n => ⟨fun h => h.1.symm, fun h => ⟨h.symm, hbound⟩⟩) (fun _ => id)
        ?_ ?_ fun _ hn => caches_provideEarly_of_ne g hn factory
      · rw [hput]
      · rw [hput]
        exact Or.inr (Or.inl (NameMap.mem_insert.mpr (Or.inl rfl)))

/-- What an operation does to the caches and the listing. -/
lemma relists_apply (g : Registry S) (u : Update S) :
    g.Relists (.update u) (g.apply u).registry := by
  cases u with
  | register name object => exact relists_register g name object
  | provideEarly name factory => exact relists_provideEarly g name factory
  | remove name =>
      exact .dropped name (fun _ => id) (fun _ => eq_comm) rfl (caches_purge_self g name)
        fun _ hn => caches_purge_of_ne g hn
  | clear => exact .cleared (fun _ => id) (fun _ => trivial) rfl fun _ => rfl
  | registerAlias name key =>
      simp only [apply, registerAlias]
      split <;> exact .kept (fun _ => id) (fun _ => id) rfl rfl
  | removeAlias key =>
      simp only [apply, removeAlias]
      split <;> exact .kept (fun _ => id) (fun _ => id) rfl rfl
  | resolveAliases resolver =>
      simp only [apply, resolveAliases]
      split <;> exact .kept (fun _ => id) (fun _ => id) rfl rfl
  | contain outer inner =>
      simp only [apply, contain]
      split <;> exact .kept (fun _ => id) (fun _ => id) rfl rfl
  | _ => exact .kept (fun _ => id) (fun _ => id) rfl rfl

/-- What a task of a destruction does to the caches and the listing. -/
lemma relists_perform (g : Registry S) (t : Task S) :
    g.Relists (.task t) (g.perform t).registry := by
  cases t with
  | destroy name =>
      exact .dropped name (fun _ => id) (fun _ => eq_comm) rfl (caches_purge_self g name)
        fun _ hn => caches_purge_of_ne g hn
  | reset => exact .cleared (fun _ => id) (fun _ => trivial) rfl fun _ => rfl
  | _ => exact .kept (fun _ => id) (fun _ => id) rfl rfl

/-- The end of a creation lists its name if an object is bound. -/
lemma relists_finishCreation (g : Registry S) (name : Name) (opened : Bool)
    (result : Except Error S.Object) :
    g.Relists (.leave name opened result) (g.finishCreation name opened result).registry := by
  have hadds : ∀ n, (Deed.leave name opened result).Adds g n ↔
      n = name ∧ (g.finishCreation name opened result).event = some (.created name) :=
    fun n => and_congr_left' eq_comm
  by_cases hmark : name ∈ g.inCreation ∨ name ∈ g.excluded
  · rw [finishCreation_of_marked hmark] at hadds ⊢
    rcases settle_cases (g.released name opened) name (g.closeReports opened).2 result with
      ⟨o, hsettle⟩ | ⟨hregistry, hevent, -⟩
    · rw [hsettle] at hadds ⊢
      refine .added name (fun n => (hadds n).trans (and_iff_left rfl)) (fun _ => id) rfl ?_ ?_
      · exact cached_iff.mpr (by simp [caches_bind_self, Caches.absent])
      · exact fun _ hn => caches_bind_of_ne (g.released name opened) hn o
    · rw [hregistry]
      exact .kept (fun n h => by simp [hevent] at hadds; exact hadds n h) (fun _ => id) rfl rfl
  · rw [not_or] at hmark
    rw [finishCreation_of_unmarked hmark.1 hmark.2] at hadds ⊢
    exact .kept (fun n h => by simp at hadds; exact hadds n h) (fun _ => id) rfl rfl

lemma known_of_mark (h : g.mark name = some g') : g'.known = g.known := by
  unfold mark at h
  split at h
  · cases h
    rfl
  · split at h <;> cases h
    rfl

/-- The start of a creation changes no listing. -/
lemma known_of_demand {opened : Bool} (h : g.demand name = .create g' opened) :
    g'.known = g.known := by
  unfold demand at h
  split at h
  · cases h
  split at h
  · cases h
  split at h
  · cases h
  · next marked hmark =>
      cases h
      rw [← known_of_mark hmark]
      split <;> rfl

lemma known_finishExposure (g : Registry S) (name : Name) (factory : S.Factory)
    (result : Except Error S.Object) :
    (g.finishExposure name factory result).registry.known = g.known := by
  cases result with
  | ok o => rfl
  | error e =>
      simp only [finishExposure]
      split <;> rfl

end Registry

namespace Moment

variable {m m' : Moment S} {deed : Deed S}

/-- **The listing and the caches change together**, but for an early factory that is taken out, and
for its end, which both leave the listing alone. -/
lemma relists_moves (hmoves : m.Moves deed m') :
    m.registry.Relists deed m'.registry ∨
      m'.registry.known = m.registry.known ∧
        ((∃ n, deed = .take n) ∨ ∃ n factory result, deed = .expose n factory result) := by
  cases hmoves with
  | update u => exact Or.inl (Registry.relists_apply m.registry u)
  | @take n early factory g hlookup =>
      refine Or.inr ⟨?_, Or.inl ⟨n, rfl⟩⟩
      rw [Registry.eq_of_lookup_eq_expose hlookup]
  | expose n factory result =>
      exact Or.inr ⟨Registry.known_finishExposure m.registry n factory result,
        Or.inr ⟨n, factory, result, rfl⟩⟩
  | enter hdemand =>
      exact Or.inl (.kept (fun _ => id) (fun _ => id) (Registry.known_of_demand hdemand)
        (Registry.caches_of_demand hdemand))
  | @leave names n opened result hcreations =>
      exact Or.inl (Registry.relists_finishCreation m.registry n opened result)
  | task t => exact Or.inl (Registry.relists_perform m.registry t)
  | _ => exact Or.inl (.kept (fun _ => id) (fun _ => id) rfl rfl)

end Moment

/-- That a name is listed is brought about by the deeds that add it, and undone by those that drop
it. -/
lemma switched_known (name : Name) :
    Switched (S := S) (fun g => name ∈ g.known) (fun g deed => deed.Adds g name)
      (fun deed => deed.Drops name) where
  effective {g deed} h := by
    cases deed with
    | update | task | leave | expose => trivial
    | _ => exact h.elim id id
  apart := Deed.Adds.not_drops
  law {m m' deed} hmoves := by
    rcases Moment.relists_moves hmoves with hrelists | ⟨hknown, hlookup⟩
    · exact hrelists.mem_known_iff
    · obtain ⟨n, rfl⟩ | ⟨n, factory, result, rfl⟩ := hlookup <;>
        simp [hknown, Deed.Adds, Deed.Drops]

/-! ### Steps -/

namespace Config

variable {c : Config S α}

/-- **Which names are listed after a step**: those that it adds, and those that were listed and that
it does not drop. -/
lemma mem_known_step_iff (caller : Caller S) (r : S.Index) (name : Name) (c : Config S α) :
    name ∈ ((step caller c).world.registry r).known ↔
      c.Adds r name ∨ name ∈ (c.world.registry r).known ∧ ¬ c.Drops r name :=
  (switched_known name).step_iff caller

/-- What is dropped by a step is not listed after it. -/
lemma Drops.not_mem_known_step (caller : Caller S) (h : c.Drops r name) :
    name ∉ ((step caller c).world.registry r).known :=
  (switched_known name).not_step caller h

/-- **The order of the listing is kept**, and at most one name comes to its end. -/
lemma knownNames_step (caller : Caller S) (r : S.Index) (c : Config S α) :
    ((step caller c).world.registry r).knownNames.Sublist (c.world.registry r).knownNames ∨
      ∃ name, ((step caller c).world.registry r).knownNames =
        (c.world.registry r).knownNames ++ [name] := by
  obtain ⟨deed, -, hmoves⟩ := step_moves caller r c
  rcases Moment.relists_moves hmoves with hrelists | ⟨hknown, -⟩
  · exact hrelists.knownNames
  · have hsame : ((step caller c).world.registry r).knownNames =
        (c.world.registry r).knownNames := congrArg NameMap.names hknown
    exact Or.inl (hsame ▸ List.Sublist.refl _)

/-! ### The early factories that run -/

/-- The name is listed exactly if it is cached or its early factory runs. -/
def Lists (r : S.Index) (name : Name) (c : Config S α) : Prop :=
  name ∈ (c.world.registry r).known ↔ (c.world.registry r).Cached name ∨ name ∈ c.exposures r

/-- A lookup that takes an early factory out leaves its name listed. -/
lemma lists_take {g : Registry S} {other : Name} {early : Bool} {factory : S.Factory}
    (h : c.Lists r name) (hlookup : (c.world.registry r).lookup other early = .expose factory g)
    (hregistry : (step caller c).world.registry r = g)
    (hstarts : (step caller c).exposures r = other :: c.exposures r) :
    (step caller c).Lists r name := by
  obtain ⟨hinstalled, -, hothers⟩ := Registry.caches_of_lookup hlookup
  have hknown : g.known = (c.world.registry r).known := by
    rw [Registry.eq_of_lookup_eq_expose hlookup]
  rw [Lists, hregistry, hknown, hstarts, List.mem_cons]
  by_cases hname : name = other
  · subst hname
    have hcached : (c.world.registry r).Cached name :=
      Registry.cached_iff.mpr (by simp [hinstalled, Caches.absent])
    exact iff_of_true (h.mpr (Or.inl hcached)) (Or.inr (Or.inl rfl))
  · rw [Registry.cached_iff, hothers name hname, ← Registry.cached_iff, or_iff_right hname]
    exact h

/-- The end of an early factory puts something into a cache of its name. -/
lemma lists_expose {other : Name} {factory : S.Factory} {result : Except Error S.Object}
    (h : c.Lists r name) (hends : c.Does r (.expose other factory result)) :
    (step caller c).Lists r name := by
  have hregistry : (step caller c).world.registry r =
      ((c.world.registry r).finishExposure other factory result).registry :=
    congrArg Moment.registry (hends.moment_expose caller)
  rw [Lists, hends.exposures_expose caller, List.mem_cons] at h
  rw [Lists, hregistry, Registry.known_finishExposure]
  by_cases hname : name = other
  · subst hname
    refine iff_of_true (h.mpr (Or.inr (Or.inl rfl))) (Or.inl (Registry.cached_iff.mpr ?_))
    rw [Registry.caches_finishExposure_self]
    cases result <;> simp [Caches.expose, Caches.absent]
  · rw [Registry.cached_iff, Registry.caches_finishExposure_of_ne _ hname,
      ← Registry.cached_iff]
    rwa [or_iff_right hname] at h

/-- **The listing stays exact**, as long as the name is not dropped while its early factory runs. -/
lemma lists_step (h : c.Lists r name) (hkept : name ∈ c.exposures r → ¬ c.Drops r name) :
    (step caller c).Lists r name := by
  rcases step_exposures caller r c with
    hsame | ⟨other, early, factory, g, hlookup, hregistry, hstarts⟩ |
      ⟨other, factory, result, hends⟩
  · obtain ⟨deed, hdoes, hmoves⟩ := step_moves caller r c
    rcases Moment.relists_moves hmoves with
      hrelists | ⟨-, ⟨n, rfl⟩ | ⟨n, factory, result, rfl⟩⟩
    · -- both follow one law, and the early factories that run are not dropped
      have hrunning : name ∈ c.exposures r → ¬ deed.Drops name :=
        fun hmem hdrops => hkept hmem ⟨deed, hdoes, hdrops⟩
      have hknown : name ∈ ((step caller c).world.registry r).known ↔
          deed.Adds (c.world.registry r) name ∨
            name ∈ (c.world.registry r).known ∧ ¬ deed.Drops name := hrelists.mem_known_iff
      have hcached : ((step caller c).world.registry r).Cached name ↔
          deed.Adds (c.world.registry r) name ∨
            (c.world.registry r).Cached name ∧ ¬ deed.Drops name := hrelists.cached_iff
      rw [Lists] at h ⊢
      rw [hknown, hcached, hsame, h, or_and_right, and_iff_left_of_imp hrunning, or_assoc]
    · rw [Lists, hsame, hdoes.registry_take hsame]
      exact h
    · exact absurd (congrArg List.length ((hdoes.exposures_expose caller).symm.trans hsame.symm))
        (Nat.succ_ne_self _)
  · exact lists_take h hlookup hregistry hstarts
  · exact lists_expose h hends

end Config

/-! ### The order of the additions -/

/-- Step `i` of a run adds the name for the first time since it was last dropped before step `k`:
it is added then and not dropped until step `k`, and whenever it was added before, it was dropped
after that and before step `i`. -/
structure FirstAdded (caller : Caller S) (r : S.Index) (name : Name) (c : Config S α) (k i : ℕ) :
    Prop where
  before : i < k
  adds : (run caller i c).Adds r name
  kept : ∀ l, i < l → l < k → ¬ (run caller l c).Drops r name
  first : ∀ l < i, (run caller l c).Adds r name →
    ∃ d, l < d ∧ d < i ∧ (run caller d c).Drops r name

namespace FirstAdded

variable {c : Config S α} {i j k : ℕ}

/-- There is one such step at most. -/
lemma unique (hi : FirstAdded caller r name c k i) (hj : FirstAdded caller r name c k j) :
    i = j := by
  by_contra hne
  rcases Nat.lt_or_gt_of_ne hne with hlt | hlt
  · obtain ⟨d, hid, hdj, hdrops⟩ := hj.first i hlt hi.adds
    exact hi.kept d hid (hdj.trans hj.before) hdrops
  · obtain ⟨d, hjd, hdi, hdrops⟩ := hi.first j hlt hj.adds
    exact hj.kept d hjd (hdi.trans hi.before) hdrops

/-- It is the same step as long as the name is not dropped. -/
lemma succ (h : FirstAdded caller r name c k i) (hkept : ¬ (run caller k c).Drops r name) :
    FirstAdded caller r name c (k + 1) i where
  before := Nat.lt_succ_of_lt h.before
  adds := h.adds
  kept l hil hlk := by
    rcases Nat.lt_succ_iff_lt_or_eq.mp hlk with hlk | rfl
    · exact h.kept l hil hlk
    · exact hkept
  first := h.first

/-- An earlier step than the last one is the same as before the last one. -/
lemma of_succ (h : FirstAdded caller r name c (k + 1) i) (hik : i < k) :
    FirstAdded caller r name c k i :=
  ⟨hik, h.adds, fun l hil hlk => h.kept l hil (Nat.lt_succ_of_lt hlk), h.first⟩

end FirstAdded

section Listing

variable {c : Config S α} {k : ℕ}

/-- The listed names are those that were added and not dropped since. -/
lemma mem_known_run_iff (hstart : name ∉ (c.world.registry r).known) :
    name ∈ ((run caller k c).world.registry r).known ↔ ∃ i, FirstAdded caller r name c k i := by
  rw [run_holds_iff (fun d => name ∈ (d.world.registry r).known) (Config.Adds r name)
    (Config.Drops r name) (Config.mem_known_step_iff caller r name), or_iff_right fun h =>
    hstart h.1]
  classical
  constructor
  · intro hadded
    -- the least of these steps
    obtain ⟨hik, hadds, hkept⟩ := Nat.find_spec hadded
    refine ⟨Nat.find hadded, hik, hadds, hkept, fun l hl hladds => ?_⟩
    by_contra hnone
    refine Nat.find_min hadded hl ⟨hl.trans hik, hladds, fun d hld hdk hdrops => ?_⟩
    rcases Nat.lt_trichotomy d (Nat.find hadded) with hlt | heq | hgt
    · exact hnone ⟨d, hld, hlt, hdrops⟩
    · rw [heq] at hdrops
      exact hdrops.not_mem_known_step caller
        ((Config.mem_known_step_iff caller r name _).mpr (Or.inl hadds))
    · exact hkept d hgt hdk hdrops
  · rintro ⟨i, hi⟩
    exact ⟨i, hi.before, hi.adds, hi.kept⟩

/-- A name that is listed before and after a step was not added first by it. -/
lemma FirstAdded.of_mem_known {i : ℕ} (hstart : name ∉ (c.world.registry r).known)
    (h : FirstAdded caller r name c (k + 1) i)
    (hmem : name ∈ ((run caller k c).world.registry r).known) :
    FirstAdded caller r name c k i := by
  have hmem' : name ∈ ((step caller (run caller k c)).world.registry r).known := by
    rw [← run_succ']
    exact (mem_known_run_iff hstart).mpr ⟨i, h⟩
  obtain ⟨j, hj⟩ := (mem_known_run_iff hstart).mp hmem
  have hij : i = j := h.unique (hj.succ fun hdrops => hdrops.not_mem_known_step caller hmem')
  exact hij ▸ hj

/-- The names are listed in the order of their first additions. -/
lemma pairwise_knownNames_run (hstart : (c.world.registry r).known = ∅) :
    ((run caller k c).world.registry r).knownNames.Pairwise fun a b =>
      ∀ i j, FirstAdded caller r a c k i → FirstAdded caller r b c k j → i < j := by
  have hnone : ∀ n, n ∉ (c.world.registry r).known := by
    intro n
    rw [hstart]
    exact List.not_mem_nil
  induction k with
  | zero =>
      have hempty : ((run caller 0 c).world.registry r).knownNames = [] :=
        congrArg NameMap.names hstart
      rw [hempty]
      exact .nil
  | succ k ih =>
      -- the names that were listed before keep their steps
      have hkept : ∀ {a b}, a ∈ ((run caller k c).world.registry r).knownNames →
          b ∈ ((run caller k c).world.registry r).knownNames →
          (∀ i j, FirstAdded caller r a c k i → FirstAdded caller r b c k j → i < j) →
          ∀ i j, FirstAdded caller r a c (k + 1) i → FirstAdded caller r b c (k + 1) j → i < j :=
        fun ha hb hab i j hi hj =>
          hab i j (hi.of_mem_known (hnone _) ha) (hj.of_mem_known (hnone _) hb)
      rcases Config.knownNames_step caller r (run caller k c) with hsub | ⟨name, happend⟩
      · rw [← run_succ'] at hsub
        exact (ih.sublist hsub).imp_of_mem fun ha hb => hkept (hsub.subset ha) (hsub.subset hb)
      · rw [← run_succ'] at happend
        have hnodup : ((run caller k c).world.registry r).knownNames.Nodup ∧ [name].Nodup ∧
            ((run caller k c).world.registry r).knownNames.Disjoint [name] := by
          rw [← List.nodup_append', ← happend]
          exact NameMap.nodup_names _
        rw [happend, List.pairwise_append]
        refine ⟨ih.imp_of_mem hkept, List.pairwise_singleton .., fun a ha b hb i j hi hj => ?_⟩
        obtain rfl := List.mem_singleton.mp hb
        have hjk : ¬ j < k := fun hlt =>
          hnodup.2.2 ((mem_known_run_iff (hnone b)).mpr ⟨j, hj.of_succ hlt⟩)
            (List.mem_singleton_self b)
        have hik := (hi.of_mem_known (hnone a) ha).before
        omega

end Listing

/-! ### Runs -/

/-- **The listing is exact**: at every moment of every run that begins with a new registry, the
known names are listed without repetition, in the order in which each was first added since it was
last dropped, and they are as many as the count says. They are the names that are cached, and those
whose early factories run at that moment, as long as these do not drop their own names. -/
theorem listing_of_run (r : S.Index) (allowed : Bool) (s : Script S α) (w : World S) (k : ℕ) :
    let start := Config.start s (w.setRegistry r (Registry.withOverriding allowed))
    let g := (run caller k start).world.registry r
    (∀ name, (∀ l < k, name ∈ (run caller l start).exposures r →
        ¬ (run caller l start).Drops r name) →
      (name ∈ g.knownNames ↔ (name ∈ g.objects ∨ name ∈ g.earlyFactories ∨
        name ∈ g.earlyReferences) ∨ name ∈ (run caller k start).exposures r)) ∧
    (∀ name, name ∈ g.knownNames ↔ ∃ i, FirstAdded caller r name start k i) ∧
    (g.knownNames.Pairwise fun a b =>
      ∀ i j, FirstAdded caller r a start k i → FirstAdded caller r b start k j → i < j) ∧
    g.knownNames.Nodup ∧ g.count = g.knownNames.length := by
  intro start g
  have hnew : (start.world.registry r) = Registry.withOverriding allowed :=
    World.registry_setRegistry_self ..
  have hempty : (start.world.registry r).known = ∅ := by
    rw [hnew]
    rfl
  have hnone : ∀ name, name ∉ (start.world.registry r).known := by
    intro name
    rw [hempty]
    exact List.not_mem_nil
  refine ⟨fun name hkept => ?_, fun name => mem_known_run_iff (hnone name),
    pairwise_knownNames_run hempty, NameMap.nodup_names _, (NameMap.length_names _).symm⟩
  have hstart : start.Lists r name := by
    rw [Config.Lists, hnew]
    simp [Registry.withOverriding, Registry.Cached, NameMap.mem_def, start, Config.exposures,
      Config.start, Stack.exposures]
  exact run_preserves (Config.Lists r name) start (i := 0) hstart
    (fun l _ hl h => Config.lists_step h (hkept l hl)) k (Nat.zero_le k) le_rfl

/-! ### A name that is added twice -/

/-- A server is registered, the client is created by way of its early factory, the server is removed
and registered again, and an early factory is installed for a pool. -/
def relisting : Script clientSetup Unit :=
  .make (.text "server") fun server =>
    .call clientIndex (.register "server" server) fun _ =>
      .demand clientIndex "client" (.creating false) fun _ =>
        .call clientIndex (.remove "server") fun _ =>
          .call clientIndex (.register "server" server) fun _ =>
            .call clientIndex (.provideEarly "pool" (.early false)) fun _ => .done ()

/-- The run of the script in a new registry. -/
def relistingRun (k : ℕ) : Config clientSetup Unit :=
  run clientCaller k (Config.start relisting
    (clientWorld.setRegistry clientIndex (Registry.withOverriding false)))

/-- The early factory of the client leaves its name alone, and the server is listed after the
client since it was removed. -/
theorem listing_of_run_relisted :
    (∀ l < 11, "client" ∈ (relistingRun l).exposures clientIndex →
      ¬ (relistingRun l).Drops clientIndex "client") ∧
    "client" ∈ (relistingRun 6).exposures clientIndex ∧
    ((relistingRun 11).world.registry clientIndex).knownNames = ["client", "server", "pool"] ∧
    ("client" ∈ ((relistingRun 11).world.registry clientIndex).objects ∨
      "client" ∈ ((relistingRun 11).world.registry clientIndex).earlyFactories ∨
      "client" ∈ ((relistingRun 11).world.registry clientIndex).earlyReferences) := by
  have hkept : ∀ l < 11, "client" ∈ (relistingRun l).exposures clientIndex →
      ¬ (relistingRun l).Drops clientIndex "client" := by
    rintro l hl hmem ⟨deed, hdoes, hdrops⟩
    obtain rfl | rfl | hother : l = 5 ∨ l = 6 ∨ l = 0 ∨ l = 1 ∨ l = 2 ∨ l = 3 ∨ l = 4 ∨ l = 7 ∨
        l = 8 ∨ l = 9 ∨ l = 10 := by omega
    · change Config.Does _ ⟨.factory, .script (.make _ _), _, _⟩ _ at hdoes
      cases hdoes
      exact hdrops
    · change Config.Does _ ⟨.factory, .script (.done _), .exposing _ _ _ _ _, _⟩ _ at hdoes
      cases hdoes <;> exact hdrops
    · rcases hother with rfl | rfl | rfl | rfl | rfl | rfl | rfl | rfl | rfl <;> cases hmem
  have hnames : ((relistingRun 11).world.registry clientIndex).knownNames =
      ["client", "server", "pool"] := rfl
  obtain ⟨hlisted, -⟩ := @listing_of_run clientSetup Unit clientCaller clientIndex false relisting
    clientWorld 11
  have hclient := (hlisted "client" hkept).mp (hnames ▸ List.mem_cons_self)
  exact ⟨hkept, List.mem_cons_self, hnames, hclient.resolve_right List.not_mem_nil⟩

end InstanceRegistry
