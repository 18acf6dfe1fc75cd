import InstanceRegistry.Proofs.Creation.Steps
import InstanceRegistry.Proofs.Registry.Caches
import InstanceRegistry.Proofs.Run.Calls

/-!
What a failed creation leaves behind. If its factory works on the name of the creation only, that is
something in the caches of the name, and dropping the name takes all of it away.

* `Update.Confined`, `Script.Confined`: code that works on one name;
* `Registry.without`: a registry without a name in its caches and without reported errors;
* `Registry.Underway`: a registry during a creation whose code works on its name, with a lemma for
  each operation;
* `Registry.Confines`, `Registry.Confines.keepsUnderway`: such code in a run;
* `Registry.Underway.purge_leaving`: the registry after the creation, when the name is dropped;
* `remove_rolls_back`: a failed creation and the removal of its name;
* `remove_rolls_back_bound`: a creation that fails after its name was bound.
-/

namespace InstanceRegistry

variable {S : Setup} {α : Type}

/-! ### Code that works on one name -/

/-- The operation registers an object under the name, installs one of the programs as its early
factory, or reports an error. -/
def Update.Confined (name : Name) (programs : Set S.Factory) : Update S → Prop
  | register other _ => other = name
  | provideEarly other factory => other = name ∧ factory ∈ programs
  | suppress _ => True
  | _ => False

/-- Of all registries the script calls only one. There it makes confined operations, looks the name
up and asks for its object, in any order, as often as it likes, and whatever the answers are. -/
def Script.Confined (r : S.Index) (name : Name) (programs : Set S.Factory) : Script S α → Prop
  | done _ => True
  | read next => ∀ memory, (next memory).Confined r name programs
  | store _ next => next.Confined r name programs
  | note _ next => next.Confined r name programs
  | make _ next => ∀ object, (next object).Confined r name programs
  | view _ next => ∀ registry, (next registry).Confined r name programs
  | call s u next =>
    s = r ∧ u.Confined name programs ∧ ∀ answer, (next answer).Confined r name programs
  | find s other _ next =>
    s = r ∧ other = name ∧ ∀ answer, (next answer).Confined r name programs
  | demand s other _ next =>
    s = r ∧ other = name ∧ ∀ answer, (next answer).Confined r name programs
  | tearDown .. => False
  | tearDownAll .. => False

/-! ### Registries during such a creation -/

namespace Registry

variable {g g₀ : Registry S} {name : Name} {programs : Set S.Factory}

/-- The registry without the name in its caches, and without reported errors. -/
def without (g : Registry S) (name : Name) : Registry S :=
  { g.purge name with suppressed := none }

/-- Without anything in its caches, a name that is not listed is dropped in vain. -/
lemma purge_eq_self (hcaches : g.caches name = .absent) (hknown : name ∉ g.known) :
    g.purge name = g := by
  simp only [caches, Caches.absent, Caches.mk.injEq] at hcaches
  rw [purge, NameMap.erase_of_get?_eq_none hcaches.1, NameMap.erase_of_get?_eq_none hcaches.2.1,
    NameMap.erase_of_get?_eq_none hcaches.2.2, NameMap.erase_of_not_mem hknown]

lemma without_bind (g : Registry S) (name : Name) (object : S.Object) :
    (g.bind name object).without name = g.without name := by
  simp only [without, purge, bind, NameSet.add, NameMap.erase_insert, NameMap.erase_erase]

lemma without_provideEarly (g : Registry S) (name : Name) (factory : S.Factory) :
    (g.provideEarly name factory).without name = g.without name := by
  unfold provideEarly
  split
  · rfl
  · simp only [without, purge, NameSet.add, NameMap.erase_insert, NameMap.erase_erase]

/-- A confined operation changes nothing but the caches of the name and the reported errors. -/
lemma without_apply {u : Update S} (hu : u.Confined name programs) :
    (g.apply u).registry.without name = g.without name := by
  cases u with
  | register other object =>
      obtain rfl : other = name := hu
      simp only [apply, register]
      split
      · rfl
      · split
        · split <;> rfl
        · exact g.without_bind other object
  | provideEarly other factory =>
      obtain ⟨rfl, -⟩ : other = name ∧ factory ∈ programs := hu
      exact g.without_provideEarly other factory
  | suppress e => rfl
  | _ => exact hu.elim

lemma without_finishExposure (g : Registry S) (name : Name) (factory : S.Factory)
    (result : Except Error S.Object) :
    (g.finishExposure name factory result).registry.without name = g.without name := by
  cases result with
  | ok object => simp only [finishExposure, without, purge, NameMap.erase_insert]
  | error e =>
      simp only [finishExposure]
      split
      · rfl
      · simp only [without, purge, NameMap.erase_insert]

/-- A registry `g` that was `g₀` when a creation of the name began. Since then only the caches of
the name and the reported errors have changed, and an early factory of the name is one of the
programs. -/
structure Underway (g₀ : Registry S) (name : Name) (programs : Set S.Factory) (g : Registry S) :
    Prop where
  rest : g.without name = g₀.without name
  installed : ∀ factory, g.earlyFactories.get? name = some factory → factory ∈ programs

namespace Underway

lemma inCreation (h : Underway g₀ name programs g) : g.inCreation = g₀.inCreation := by
  change (g.without name).inCreation = (g₀.without name).inCreation
  rw [h.rest]

lemma excluded (h : Underway g₀ name programs g) : g.excluded = g₀.excluded := by
  change (g.without name).excluded = (g₀.without name).excluded
  rw [h.rest]

lemma observer (h : Underway g₀ name programs g) : g.observer = g₀.observer := by
  change (g.without name).observer = (g₀.without name).observer
  rw [h.rest]

lemma apply (h : Underway g₀ name programs g) {u : Update S} (hu : u.Confined name programs) :
    Underway g₀ name programs (g.apply u).registry where
  rest := (without_apply hu).trans h.rest
  installed f hf := by
    cases u with
    | register other object =>
        obtain rfl : other = name := hu
        simp only [Registry.apply, Registry.register] at hf
        split at hf
        · exact h.installed f hf
        · split at hf
          · split at hf <;> exact h.installed f hf
          · rw [show (g.bind other object).earlyFactories = g.earlyFactories.erase other from rfl,
              NameMap.get?_erase_self] at hf
            cases hf
    | provideEarly other factory =>
        obtain ⟨rfl, hmem⟩ : other = name ∧ factory ∈ programs := hu
        simp only [Registry.apply, Registry.provideEarly] at hf
        split at hf
        · exact h.installed f hf
        · rw [NameMap.get?_insert_self] at hf
          exact Option.some.inj hf ▸ hmem
    | suppress e => exact h.installed f hf
    | _ => exact hu.elim

/-- The creation begins. -/
lemma start (hfactory : g.earlyFactories.get? name = none) :
    Underway (g.entering name) name programs (g.entering name) where
  rest := rfl
  installed f hf := absurd (hfactory.symm.trans hf) (by simp)

/-- The early factory that a lookup runs is one of the programs. -/
lemma of_lookup (h : Underway g₀ name programs g) {early : Bool} {factory : S.Factory}
    {g' : Registry S} (hlookup : g.lookup name early = .expose factory g') :
    factory ∈ programs ∧ Underway g₀ name programs g' := by
  obtain rfl := eq_of_lookup_eq_expose hlookup
  have hcaches : g.caches name = ⟨none, some factory, none⟩ := (caches_of_lookup hlookup).1
  refine ⟨h.installed factory (congrArg Caches.factory hcaches), Eq.trans ?_ h.rest,
    fun f hf => ?_⟩
  · simp only [without, purge, NameMap.erase_erase]
  · rw [NameMap.get?_erase_self] at hf
    cases hf

lemma finishExposure (h : Underway g₀ name programs g) {factory : S.Factory}
    (hmem : factory ∈ programs) (result : Except Error S.Object) :
    Underway g₀ name programs (g.finishExposure name factory result).registry where
  rest := (g.without_finishExposure name factory result).trans h.rest
  installed f hf := by
    cases result with
    | ok object => exact h.installed f hf
    | error e =>
        simp only [Registry.finishExposure] at hf
        split at hf
        · exact h.installed f hf
        · rw [NameMap.get?_insert_self] at hf
          exact Option.some.inj hf ▸ hmem

/-- Without the name, the registry after the creation is the one before. -/
lemma purge_leaving (h : Underway (g₀.entering name) name programs g)
    (hidle : g₀.suppressed = none) (hcaches : g₀.caches name = .absent) (hknown : name ∉ g₀.known)
    (hunmarked : name ∉ g₀.inCreation) : (g.leaving name true).purge name = g₀ := by
  have hmarks : (g₀.inCreation.add name).erase name = g₀.inCreation :=
    (NameMap.erase_insert ..).trans (NameMap.erase_of_not_mem hunmarked)
  calc (g.leaving name true).purge name
      = { g.without name with inCreation := g.inCreation.erase name } := rfl
    _ = { (g₀.entering name).without name with
            inCreation := (g₀.inCreation.add name).erase name } := by
        rw [h.rest, h.inCreation]
        rfl
    _ = { g₀.purge name with suppressed := none } := by
        rw [hmarks]
        rfl
    _ = g₀ := by rw [purge_eq_self hcaches hknown, ← hidle]

end Underway

/-- A name that is being created is not created once more. -/
lemma exists_demand_eq_answered (hmark : name ∈ g.inCreation) (htracked : name ∉ g.excluded) :
    ∃ answer notices, g.demand name = .answered answer notices := by
  have hrefused : g.mark name = none := by rw [mark, if_neg htracked, if_pos hmark]
  unfold demand
  split
  · exact ⟨_, _, rfl⟩
  · split
    · exact ⟨_, _, rfl⟩
    · rw [hrefused]
      exact ⟨_, _, rfl⟩

/-- A creation that fails leaves the registry as it was when its factory ended, but for the mark and
the reported errors. -/
lemma registry_of_answer_error {opened : Bool} {result : Except Error S.Object} {e : Error}
    (htracked : name ∉ g.excluded) (hmark : name ∈ g.inCreation)
    (h : (g.finishCreation name opened result).answer = .error e) :
    (g.finishCreation name opened result).registry = g.leaving name opened := by
  rw [finishCreation_eq htracked hmark] at h ⊢
  rcases settle_cases (g.leaving name opened) name (g.closeReports opened).2 result with
    ⟨object, hsettle⟩ | ⟨hregistry, -, -⟩
  · rw [hsettle] at h
    cases h
  · exact hregistry

end Registry

/-! ### Runs -/

variable {caller : Caller S} {r : S.Index} {name : Name} {programs : Set S.Factory}
  {g₀ : Registry S}

namespace Registry

variable (caller r name programs) in
/-- In a creation of the name that begins with the registry `g₀`, all code that an operation runs
works on this name only: the early factories are confined, and the observer keeps off. -/
structure Confines (g₀ : Registry S) : Prop where
  programs : ∀ f ∈ programs, (caller.factory f).Confined r name programs
  observed : QuietlyObserved caller r Entry.unseen g₀
  marked : name ∈ g₀.inCreation
  tracked : name ∉ g₀.excluded

variable (caller r name programs) in
/-- Confined scripts whose runs end after `n` steps change nothing but the caches of the name and
the reported errors. -/
def KeepsUnderway (g₀ : Registry S) (n : ℕ) : Prop :=
  ∀ {α : Type} {s : Script S α} {w w' : World S} {a : α},
    run caller n (Config.start s w) = Config.start (.done a) w' → s.Confined r name programs →
      g₀.Underway name programs (w.registry r) → g₀.Underway name programs (w'.registry r)

namespace Confines

variable {α β : Type} {m n : ℕ} {w w' : World S} {a : α}

/-- What is left of a script after a change of the registry. -/
lemma commit (h : g₀.Confines caller r name programs)
    (ih : ∀ k < n, g₀.KeepsUnderway caller r name programs k) {change : Registry.Change S β}
    {next : β → Script S (Role.client.Result S α)}
    (hnext : ∀ answer, (next answer).Confined r name programs)
    (hchange : g₀.Underway name programs change.registry) (hm : m < n)
    (hrun : run caller m (InstanceRegistry.commit caller r change (.script <| next ·) .bottom w) =
      Config.start (.done a) w') : g₀.Underway name programs (w'.registry r) := by
  obtain ⟨w₁, hreach, hw₁⟩ := exists_reaches_commit change (Activity.script <| next ·) Stack.bottom
    w (h.observed.of_observer hchange.observer)
  obtain ⟨k, hk, hend⟩ := hreach.exists_run_done hrun
  exact ih k (by omega) hend (hnext change.answer) (hw₁.registry ▸ hchange)

/-- What is left of a script from a lookup on. -/
lemma find (h : g₀.Confines caller r name programs)
    (ih : ∀ k < n, g₀.KeepsUnderway caller r name programs k) {early : Bool}
    {next : Except Error (Option S.Object) → Script S α}
    (hnext : ∀ answer, (next answer).Confined r name programs)
    (hw : g₀.Underway name programs (w.registry r)) (hm : m < n)
    (hrun : run caller m (step caller (Config.start (.find r name early next) w)) =
      Config.start (.done a) w') : g₀.Underway name programs (w'.registry r) := by
  cases hlookup : (w.registry r).lookup name early with
  | answered object =>
      simp only [Config.start, step, stepScript, hlookup] at hrun
      exact ih m hm hrun (hnext (.ok object)) hw
  | expose f g =>
      obtain ⟨hf, hg⟩ := hw.of_lookup hlookup
      simp only [Config.start, step, stepScript, hlookup] at hrun
      rw [← start_inside] at hrun
      -- the early factory runs to its end first
      obtain ⟨result, w₁, k, hk, hinner, houter⟩ := run_of_inside hrun
      have hw₁ : g₀.Underway name programs (w₁.registry r) :=
        ih k (by omega) hinner (h.programs f hf) (by simpa using hg)
      obtain ⟨l, hl, hlast⟩ := exists_run_step rfl houter
      exact h.commit ih hnext (hw₁.finishExposure hf result) (by omega) hlast

/-- What is left of a script from a request on, which is refused. -/
lemma demand (h : g₀.Confines caller r name programs)
    (ih : ∀ k < n, g₀.KeepsUnderway caller r name programs k) {factory : S.Factory}
    {next : Except Error S.Object → Script S α}
    (hnext : ∀ answer, (next answer).Confined r name programs)
    (hw : g₀.Underway name programs (w.registry r)) (hm : m < n)
    (hrun : run caller m (step caller (Config.start (.demand r name factory next) w)) =
      Config.start (.done a) w') : g₀.Underway name programs (w'.registry r) := by
  obtain ⟨answer, notices, hanswer⟩ := Registry.exists_demand_eq_answered
    (hw.inCreation ▸ h.marked) (hw.excluded ▸ h.tracked)
  simp only [Config.start, step, stepScript, hanswer] at hrun
  exact ih m hm hrun (hnext answer) hw

/-- **Code that works on one name** changes nothing but the caches of the name and the reported
errors, while the name is being created. -/
theorem keepsUnderway (h : g₀.Confines caller r name programs) (n : ℕ) :
    g₀.KeepsUnderway caller r name programs n := by
  induction n using Nat.strong_induction_on with
  | _ n ih =>
  intro α s w w' a hn hs hw
  cases s with
  | done b =>
      obtain ⟨-, rfl⟩ := ends_done_iff.mp ⟨n, hn⟩
      exact hw
  | tearDown q other next => exact hs.elim
  | tearDownAll q next => exact hs.elim
  | call q u next =>
      obtain ⟨rfl, hu, hnext⟩ := hs
      obtain ⟨m, hm, hrest⟩ := exists_run_step rfl hn
      exact h.commit ih hnext (hw.apply hu) hm hrest
  | find q other early next =>
      obtain ⟨rfl, rfl, hnext⟩ := hs
      obtain ⟨m, hm, hrest⟩ := exists_run_step rfl hn
      exact h.find ih hnext hw hm hrest
  | demand q other f next =>
      obtain ⟨rfl, rfl, hnext⟩ := hs
      obtain ⟨m, hm, hrest⟩ := exists_run_step rfl hn
      exact h.demand ih hnext hw hm hrest
  | read next =>
      obtain ⟨m, hm, hrest⟩ := exists_run_step rfl hn
      exact ih m hm hrest (hs w.memory) hw
  | store change next | note content next =>
      obtain ⟨m, hm, hrest⟩ := exists_run_step rfl hn
      exact ih m hm hrest hs hw
  | make value next | view q next =>
      obtain ⟨m, hm, hrest⟩ := exists_run_step rfl hn
      exact ih m hm hrest (hs _) hw

end Confines

end Registry

/-- **The removal of its name rolls a failed creation back**: let the name be neither listed nor in
any of the caches, nor excluded, while no creation is under way. Let the code of the factory, and of
all early factories that it installs, work on this name only: it registers objects and early
factories, looks the name up, asks for its object and reports errors. If the request for its object
fails, then after the name is removed the registry is what it was before the request. -/
theorem remove_rolls_back {factory : S.Factory} {w w₁ : World S} {e : Error}
    (hprograms : ∀ f ∈ programs, (caller.factory f).Confined r name programs)
    (hfactory : (caller.factory factory).Confined r name programs)
    (hobs : QuietlyObserved caller r Entry.unseen (w.registry r))
    (hidle : (w.registry r).suppressed = none)
    (hcaches : (w.registry r).caches name = .absent) (hknown : name ∉ (w.registry r).known)
    (htracked : name ∉ (w.registry r).excluded)
    (hfails : Ends caller (Script.obtain r name factory) w (.error e) w₁) :
    ∃ w₂, Ends caller (Script.update r (.remove name)) w₁ () w₂ ∧
      w₂.registry r = w.registry r := by
  have hpurge : (w₁.registry r).purge name = w.registry r := by
    cases hdemand : (w.registry r).demand name with
    | answered answer notices =>
        obtain ⟨-, rfl⟩ := hfails.unique (ends_obtain_answered hdemand)
        exact Registry.purge_eq_self hcaches hknown
    | create g opened =>
        obtain ⟨hunmarked, rfl, rfl⟩ := Registry.eq_of_demand_eq_create htracked hdemand
        obtain ⟨result, w', hends⟩ := exists_ends_factory hdemand hfails
        have hconfines : ((w.registry r).entering name).Confines caller r name programs :=
          ⟨hprograms, hobs, NameSet.mem_add.mpr (Or.inl rfl), htracked⟩
        have hstart : ((w.registry r).entering name).Underway name programs
            ((w.creating r name factory ((w.registry r).entering name)).registry r) := by
          rw [World.registry_creating]
          exact .start (congrArg Caches.factory hcaches)
        obtain ⟨n, hn⟩ := hends
        have hunderway := hconfines.keepsUnderway n hn hfactory hstart
        obtain ⟨w₂, hends, hw₂⟩ := exists_ends_obtain_create hdemand ⟨n, hn⟩
          (hconfines.observed.of_observer ((Registry.AgreesOutside.finishCreation ..).observer.trans
            hunderway.observer))
        obtain ⟨hanswer, rfl⟩ := hfails.unique hends
        rw [hw₂.registry, Registry.registry_of_answer_error (hunderway.excluded ▸ htracked)
          (hunderway.inCreation ▸ hconfines.marked) hanswer.symm, hidle]
        exact hunderway.purge_leaving hidle hcaches hknown hunmarked
  have hquiet : QuietlyObserved caller r Entry.unseen
      ((w₁.registry r).apply (.remove name)).registry :=
    hobs.of_observer (congrArg Registry.observer hpurge)
  obtain ⟨w₂, hends, hw₂⟩ := exists_ends_update hquiet
  exact ⟨w₂, hends, hw₂.registry.trans hpurge⟩

/-! ### A creation that fails after its name was bound -/

/-- The factory of the server, and its early factory. -/
inductive ServerFactory where
  | creating
  | early

/-- One registry, and the factories of the server. -/
def serverSetup : Setup := ⟨.basic, 1, ServerFactory, Empty, Empty, Unit, Empty⟩

/-- The number of the registry. -/
def serverIndex : serverSetup.Index := Fin.mk 0 Nat.one_pos

/-- The factory installs the early factory, which fails and is put back, reports an error, asks for
the object that it is to create, binds another one, and fails. -/
def serverCaller : Caller serverSetup where
  factory
    | .creating => .call serverIndex (.provideEarly "server" .early) fun _ =>
      .find serverIndex "server" true fun _ =>
        .call serverIndex (.suppress (.caller "port in use" [])) fun _ =>
          .demand serverIndex "server" .creating fun _ =>
            .make (.text "server") fun server =>
              .call serverIndex (.register "server" server) fun _ =>
                .done (.error (.caller "no certificate" []))
    | .early => .done (.error (.illegalState "not yet"))
  disposer d := d.elim
  observer o _ := o.elim

/-- A registry as the only one of a world, in which something else is known. -/
def serverWorld : World serverSetup :=
  ⟨#v[({} : Registry serverSetup).bind "clock" ⟨0, .unit⟩], (), 1, []⟩

/-- The world after the failed creation. -/
def failedWorld : World serverSetup :=
  (run serverCaller 12 (Config.start (Script.obtain serverIndex "server" .creating)
    serverWorld)).world

/-- The creation fails and leaves the server bound. When the server is removed, the registry is what
it was. -/
theorem remove_rolls_back_bound :
    (∀ f ∈ ({.early} : Set ServerFactory),
      (serverCaller.factory f).Confined serverIndex "server" ({.early} : Set ServerFactory)) ∧
    (serverCaller.factory .creating).Confined serverIndex "server"
      ({.early} : Set ServerFactory) ∧
    Ends serverCaller (Script.obtain serverIndex "server" .creating) serverWorld
      (.error (.creationFailed "server" (.caller "no certificate" [])
        [.caller "port in use" []])) failedWorld ∧
    (failedWorld.registry serverIndex).object? "server" = some ⟨1, .text "server"⟩ ∧
    ∃ w₂, Ends serverCaller (Script.update serverIndex (.remove "server")) failedWorld () w₂ ∧
      w₂.registry serverIndex = serverWorld.registry serverIndex := by
  have hprograms : ∀ f ∈ ({.early} : Set ServerFactory),
      (serverCaller.factory f).Confined serverIndex "server" ({.early} : Set ServerFactory) := by
    rintro f rfl
    exact trivial
  have hfactory : (serverCaller.factory .creating).Confined serverIndex "server"
      ({.early} : Set ServerFactory) :=
    ⟨rfl, ⟨rfl, rfl⟩, fun _ => ⟨rfl, rfl, fun _ => ⟨rfl, trivial, fun _ =>
      ⟨rfl, rfl, fun _ => fun _ => ⟨rfl, rfl, fun _ => trivial⟩⟩⟩⟩⟩
  have hfails : Ends serverCaller (Script.obtain serverIndex "server" .creating) serverWorld
      (.error (.creationFailed "server" (.caller "no certificate" [])
        [.caller "port in use" []])) failedWorld := Ends.of_result? rfl
  have hidle : (serverWorld.registry serverIndex).suppressed = none := rfl
  have hcaches : (serverWorld.registry serverIndex).caches "server" = .absent := rfl
  have hknown : "server" ∉ (serverWorld.registry serverIndex).known := by decide
  have htracked : "server" ∉ (serverWorld.registry serverIndex).excluded := by decide
  exact ⟨hprograms, hfactory, hfails, rfl, remove_rolls_back hprograms hfactory (fun o => o.elim)
    hidle hcaches hknown htracked hfails⟩

end InstanceRegistry
