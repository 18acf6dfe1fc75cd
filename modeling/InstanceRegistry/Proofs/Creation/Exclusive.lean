import InstanceRegistry.Proofs.Registry.Caches
import InstanceRegistry.Proofs.Run.Exposures

/-!
When the caches have no name in common. A lookup takes an early factory out and puts its result back
without another look at the caches, so what matters is what the early factory did to its own name
while it ran.

* `Deed.Puts`, `Config.Puts`: the steps that put a name into a cache;
* `Config.Admits`: the result of an early factory that ends has a place;
* `Config.HandsOut`: a lookup is answered with an early object;
* `Moment.exclusive_moves_iff`: only the end of an early factory can put a name into two caches;
* `Config.Apart`: while the early factory of a name runs, no cache has the name;
* `caches_exclusive`: when the caches are exclusive, and what is handed out then;
* `caches_exclusive_quiet`, `caches_overlap`: an early factory that leaves its own name alone, and
  one that binds it.
-/

namespace InstanceRegistry

variable {S : Setup} {α : Type} {caller : Caller S} {r : S.Index} {name : Name}

/-! ### Steps that fill a cache -/

/-- The deed puts the name into a cache: it is bound, or an early factory is installed for it, or
its creation ends with an object. -/
def Deed.Puts (name : Name) : Deed S → Prop
  | .update u => u.Puts name
  | .leave other _ (.ok _) => other = name
  | _ => False

/-- The next step puts the name into a cache, other than by the end of an early factory. -/
def Config.Puts (r : S.Index) (name : Name) (c : Config S α) : Prop :=
  ∃ deed, c.Does r deed ∧ deed.Puts name

/-- If the next step ends an early factory of the name, its result has a place. -/
def Config.Admits (r : S.Index) (name : Name) (c : Config S α) : Prop :=
  ∀ factory result, c.Does r (.expose name factory result) →
    ((c.world.registry r).caches name).Admits result

/-- The next step answers a lookup with an early object: with the one of an early factory that ends,
or with one that was handed out before and is not the object that is bound. -/
def Config.HandsOut (r : S.Index) (name : Name) (o : S.Object) (c : Config S α) : Prop :=
  (∃ factory, c.Does r (.expose name factory (.ok o))) ∨
  ∃ (role : Role) (early : Bool)
    (next : Except Error (Option S.Object) → Script S (role.Result S α))
    (stack : Stack S α role) (w : World S),
    c = ⟨role, .script (.find r name early next), stack, w⟩ ∧
      (w.registry r).lookup name early = .answered (some o) ∧ (w.registry r).object? name ≠ some o

namespace Moment

variable {m m' : Moment S} {deed : Deed S}

/-- What a deed other than the end of its early factory does to what is cached for a name. -/
lemma caches_moves (hmoves : m.Moves deed m')
    (hdeed : ∀ factory result, deed ≠ .expose name factory result) :
    m'.registry.caches name = m.registry.caches name ∨ m'.registry.caches name = .absent ∨
      deed.Puts name ∧ (m'.registry.caches name).Exclusive := by
  cases hmoves with
  | update u => exact Registry.caches_apply m.registry u name
  | @take other early factory g hlookup =>
      obtain ⟨-, habsent, hothers⟩ := Registry.caches_of_lookup hlookup
      by_cases hother : other = name
      · subst hother
        exact Or.inr (Or.inl habsent)
      · exact Or.inl (hothers name (Ne.symm hother))
  | expose other factory result =>
      have hother : other ≠ name := by
        rintro rfl
        exact hdeed factory result rfl
      exact Or.inl (Registry.caches_finishExposure_of_ne m.registry (Ne.symm hother) factory result)
  | enter hdemand => exact Or.inl (congrFun (Registry.caches_of_demand hdemand) name)
  | @leave names other opened result hcreations =>
      rcases Registry.caches_finishCreation m.registry other opened result with
        hsame | ⟨o, rfl, hbound, hothers⟩
      · exact Or.inl (congrFun hsame name)
      · by_cases hother : other = name
        · subst hother
          right; right
          refine ⟨rfl, ?_⟩
          show ((m.registry.finishCreation other opened (.ok o)).registry.caches other).Exclusive
          rw [hbound]
          exact Caches.exclusive_object o
        · exact Or.inl (hothers name (Ne.symm hother))
  | task t => exact (Registry.caches_perform m.registry t name).imp_right Or.inl
  | _ => exact Or.inl rfl

/-- **Only the end of an early factory can put its name into two caches**, and does so exactly if
its result has no place. -/
lemma exclusive_moves_iff (h : (m.registry.caches name).Exclusive) (hmoves : m.Moves deed m') :
    (m'.registry.caches name).Exclusive ↔ ∀ factory result, deed = .expose name factory result →
      (m.registry.caches name).Admits result := by
  by_cases hdeed : ∃ factory result, deed = .expose name factory result
  · obtain ⟨factory, result, rfl⟩ := hdeed
    cases hmoves
    show ((m.registry.finishExposure name factory result).registry.caches name).Exclusive ↔ _
    rw [Registry.caches_finishExposure_self, Caches.exclusive_expose_iff]
    constructor
    · rintro hadmits _ _ ⟨⟩
      exact hadmits
    · exact fun hadmits => hadmits factory result rfl
  · have hdeed' : ∀ factory result, deed ≠ .expose name factory result :=
      fun factory result heq => hdeed ⟨factory, result, heq⟩
    refine iff_of_true ?_ fun factory result heq => absurd heq (hdeed' factory result)
    rcases caches_moves hmoves hdeed' with hsame | habsent | ⟨-, hputs⟩
    · rwa [hsame]
    · rw [habsent]
      exact Caches.exclusive_absent
    · exact hputs

end Moment

/-! ### While an early factory runs -/

namespace Config

variable {c : Config S α}

/-- The caches are exclusive, and while the early factory of the name runs, which it does once at
most, no cache has the name. -/
structure Apart (r : S.Index) (name : Name) (c : Config S α) : Prop where
  exclusive : ((c.world.registry r).caches name).Exclusive
  once : (c.exposures r).count name ≤ 1
  absent : name ∈ c.exposures r → (c.world.registry r).caches name = .absent

/-- An early factory that ends finds no cache with its name. -/
lemma Apart.admits (h : c.Apart r name) : c.Admits r name := by
  intro factory result hdoes
  rw [h.absent hdoes.mem_exposures]
  cases result <;> exact ⟨rfl, rfl⟩

/-- The caches stay apart if the early factory of the name is not started, and no cache has the name
where that was running. -/
lemma Apart.of_count_le {d : Config S α} (h : c.Apart r name)
    (hexclusive : ((d.world.registry r).caches name).Exclusive)
    (hkept : name ∈ c.exposures r → (d.world.registry r).caches name = .absent)
    (hcount : (d.exposures r).count name ≤ (c.exposures r).count name) : d.Apart r name where
  exclusive := hexclusive
  once := hcount.trans h.once
  absent hmem := hkept (List.count_pos_iff.mp ((List.count_pos_iff.mpr hmem).trans_le hcount))

/-- An early factory of the name that can be taken out of the caches is not running. -/
lemma Apart.not_mem_exposures {factory : S.Factory} (h : c.Apart r name)
    (hinstalled : (c.world.registry r).caches name = ⟨none, some factory, none⟩) :
    name ∉ c.exposures r := by
  intro hmem
  have hcaches := hinstalled.symm.trans (h.absent hmem)
  simp [Caches.absent] at hcaches

/-- The caches stay apart as long as nothing puts the name into one while its early factory runs. -/
lemma apart_step (h : c.Apart r name) (hquiet : name ∈ c.exposures r → ¬ c.Puts r name) :
    (step caller c).Apart r name := by
  obtain ⟨deed, hdoes, hmoves⟩ := step_moves caller r c
  have hbefore : ((c.moment r).registry.caches name).Exclusive := h.exclusive
  have hexclusive : (((step caller c).world.registry r).caches name).Exclusive :=
    (Moment.exclusive_moves_iff hbefore hmoves).mpr fun factory result heq =>
      h.admits factory result (heq ▸ hdoes)
  by_cases hends : ∃ factory result, c.Does r (.expose name factory result)
  · -- it was the only one of the name that ran
    obtain ⟨factory, result, hexpose⟩ := hends
    have honce := h.once
    rw [hexpose.exposures_expose caller, List.count_cons_self] at honce
    have hzero : ((step caller c).exposures r).count name = 0 := by omega
    exact ⟨hexclusive, hzero.trans_le (Nat.zero_le 1),
      fun hmem => absurd hmem (List.count_eq_zero.mp hzero)⟩
  have hkept : name ∈ c.exposures r → ((step caller c).world.registry r).caches name = .absent := by
    intro hmem
    have hdeed : ∀ factory result, deed ≠ .expose name factory result :=
      fun factory result heq => hends ⟨factory, result, heq ▸ hdoes⟩
    rcases Moment.caches_moves hmoves hdeed with hsame | habsent | ⟨hputs, -⟩
    · exact hsame.trans (h.absent hmem)
    · exact habsent
    · exact absurd ⟨deed, hdoes, hputs⟩ (hquiet hmem)
  rcases step_exposures caller r c with
    hsame | ⟨other, early, factory, g, hlookup, hregistry, hstarts⟩ |
      ⟨other, factory, result, hother⟩
  · exact h.of_count_le hexclusive hkept (by rw [hsame])
  · obtain ⟨hinstalled, habsent, -⟩ := Registry.caches_of_lookup hlookup
    by_cases hother : other = name
    · subst hother
      refine ⟨hexclusive, ?_, fun _ => ?_⟩
      · rw [hstarts, List.count_cons_self,
          List.count_eq_zero.mpr (h.not_mem_exposures hinstalled)]
      · rw [hregistry]
        exact habsent
    · exact h.of_count_le hexclusive hkept (by rw [hstarts, List.count_cons_of_ne hother])
  · refine h.of_count_le hexclusive hkept ?_
    rw [hother.exposures_expose caller]
    exact List.count_le_count_cons

/-- What is handed out is an early object then, and nothing else is cached for its name if the
caches are exclusive. -/
lemma HandsOut.caches_step {o : S.Object} (h : c.HandsOut r name o)
    (hexclusive : (((step caller c).world.registry r).caches name).Exclusive) :
    ((step caller c).world.registry r).caches name = ⟨none, none, some o⟩ := by
  refine hexclusive.eq_of_reference ?_
  rcases h with ⟨factory, hdoes⟩ | ⟨role, early, next, stack, w, rfl, hlookup, hobject⟩
  · show (((step caller c).moment r).registry.caches name).reference = some o
    rw [hdoes.moment_expose]
    exact congrArg Caches.reference
      (Registry.caches_finishExposure_self (c.world.registry r) name factory (.ok o))
  · rcases Registry.object_or_reference_of_lookup hlookup with hbound | ⟨-, hreference⟩
    · exact absurd hbound hobject
    · simp only [step, stepScript, hlookup]
      exact hreference

end Config

/-! ### Runs -/

/-- **When the caches are exclusive**: they are as long as every early factory of the name that ends
finds a place for its result, and only so long, and in any case if nothing puts the name into a
cache while its early factory runs. What a lookup hands out while the caches are exclusive is then
the early object of a name that is not bound. -/
theorem caches_exclusive (r : S.Index) (name : Name) (s : Script S α) (w : World S)
    (hstart : ((w.registry r).caches name).Exclusive) (n : ℕ) :
    ((∀ k ≤ n, (((run caller k (Config.start s w)).world.registry r).caches name).Exclusive) ↔
      ∀ k < n, (run caller k (Config.start s w)).Admits r name) ∧
    ((∀ k < n, name ∈ (run caller k (Config.start s w)).exposures r →
        ¬ (run caller k (Config.start s w)).Puts r name) →
      ∀ k ≤ n, (((run caller k (Config.start s w)).world.registry r).caches name).Exclusive) ∧
    ∀ k o, (run caller k (Config.start s w)).HandsOut r name o →
      (((run caller (k + 1) (Config.start s w)).world.registry r).caches name).Exclusive →
      ((run caller (k + 1) (Config.start s w)).world.registry r).caches name =
        ⟨none, none, some o⟩ := by
  have hnext : ∀ k, run caller (k + 1) (Config.start s w) =
      step caller (run caller k (Config.start s w)) := fun k => run_succ' caller k _
  refine ⟨⟨fun hexclusive k hk factory result hdoes => ?_, fun hadmits k => ?_⟩,
    fun hquiet k hk => ?_, fun k o hhands hexclusive => ?_⟩
  · have hafter : (((step caller (run caller k (Config.start s w))).moment r).registry.caches
        name).Exclusive := hnext k ▸ hexclusive (k + 1) hk
    rw [hdoes.moment_expose] at hafter
    exact Caches.exclusive_expose_iff.mp
      ((Registry.caches_finishExposure_self _ name factory result) ▸ hafter)
  · refine run_preserves (fun c => ((c.moment r).registry.caches name).Exclusive)
      (Config.start s w) (i := 0) hstart (fun k _ hk hbefore => ?_) k (Nat.zero_le k)
    obtain ⟨deed, hdoes, hmoves⟩ := step_moves caller r (run caller k (Config.start s w))
    refine (Moment.exclusive_moves_iff hbefore hmoves).mpr ?_
    exact fun factory result heq => hadmits k hk factory result (heq ▸ hdoes)
  · -- the caches are apart all along
    have hfirst : (Config.start s w).Apart r name :=
      ⟨hstart, Nat.zero_le 1, fun hmem => absurd hmem List.not_mem_nil⟩
    refine (run_preserves (fun c => c.Apart r name) (Config.start s w) (i := 0) hfirst
      (fun k _ hk hapart => ?_) k (Nat.zero_le k) hk).exclusive
    exact Config.apart_step hapart (hquiet k hk)
  · rw [hnext] at hexclusive ⊢
    exact hhands.caches_step hexclusive

/-! ### Early factories that run once -/

/-- The factory of the client, and its early factory, which binds the client or does not. -/
inductive ClientFactory where
  | creating (binds : Bool)
  | early (binds : Bool)

/-- One registry, and the factories of the client. -/
def clientSetup : Setup := ⟨.basic, 1, ClientFactory, Empty, Empty, Unit, Empty⟩

/-- The number of the registry. -/
def clientIndex : clientSetup.Index := Fin.mk 0 Nat.one_pos

/-- The factory installs the early factory, and ends with what a lookup hands out. The early factory
ends with a new object, after it has bound another one if it is the one that does. -/
def clientCaller : Caller clientSetup where
  factory
    | .creating binds => .call clientIndex (.provideEarly "client" (.early binds)) fun _ =>
      .find clientIndex "client" true fun
        | .ok (some object) => .done (.ok object)
        | .ok none => .done (.error (.illegalState "no client"))
        | .error e => .done (.error e)
    | .early false => .make (.text "client") fun o => .done (.ok o)
    | .early true => .make (.text "first") fun first =>
      .call clientIndex (.register "client" first) fun _ =>
        .make (.text "second") fun second => .done (.ok second)
  disposer d := d.elim
  observer o _ := o.elim

/-- A new registry as the only one of a world. -/
def clientWorld : World clientSetup := ⟨#v[{}], (), 0, []⟩

/-- The run in which the client is created. -/
def clientRun (binds : Bool) (k : ℕ) : Config clientSetup (Except Error clientSetup.Object) :=
  run clientCaller k
    (Config.start (Script.obtain clientIndex "client" (.creating binds)) clientWorld)

/-- An early factory that leaves its own name alone puts its object into the only cache that has the
name. -/
theorem caches_exclusive_quiet :
    ((clientWorld.registry clientIndex).caches "client").Exclusive ∧
    (∀ k < 6, "client" ∈ (clientRun false k).exposures clientIndex →
      ¬ (clientRun false k).Puts clientIndex "client") ∧
    (∀ k ≤ 6, (((clientRun false k).world.registry clientIndex).caches "client").Exclusive) ∧
    (clientRun false 4).HandsOut clientIndex "client" ⟨0, .text "client"⟩ ∧
    ((clientRun false 5).world.registry clientIndex).caches "client" =
      ⟨none, none, some ⟨0, .text "client"⟩⟩ := by
  have hstart : ((clientWorld.registry clientIndex).caches "client").Exclusive := by decide
  have hquiet : ∀ k < 6, "client" ∈ (clientRun false k).exposures clientIndex →
      ¬ (clientRun false k).Puts clientIndex "client" := by
    rintro k hk hmem ⟨deed, hdoes, hputs⟩
    obtain rfl | rfl | hother : k = 3 ∨ k = 4 ∨ k = 0 ∨ k = 1 ∨ k = 2 ∨ k = 5 := by omega
    · change Config.Does _ ⟨.factory, .script (.make _ _), _, _⟩ _ at hdoes
      cases hdoes
      exact hputs
    · change Config.Does _ ⟨.factory, .script (.done _), .exposing _ _ _ _ _, _⟩ _ at hdoes
      cases hdoes <;> exact hputs
    · rcases hother with rfl | rfl | rfl | rfl <;> cases hmem
  have hhands : (clientRun false 4).HandsOut clientIndex "client" ⟨0, .text "client"⟩ :=
    Or.inl ⟨.early false, .expose _ _ _⟩
  obtain ⟨-, hexclusive, hout⟩ := caches_exclusive clientIndex "client"
    (Script.obtain clientIndex "client" (.creating false)) clientWorld hstart 6
  exact ⟨hstart, hquiet, hexclusive hquiet, hhands,
    hout 4 _ hhands (hexclusive hquiet 5 (by decide))⟩

/-- An early factory that binds its own name leaves it in two caches, and a lookup hands out the
early object of a name that is bound to another one. -/
theorem caches_overlap :
    ((clientWorld.registry clientIndex).caches "client").Exclusive ∧
    ((clientRun true 7).world.registry clientIndex).caches "client" =
      ⟨some ⟨0, .text "first"⟩, none, some ⟨1, .text "second"⟩⟩ ∧
    ¬ (((clientRun true 7).world.registry clientIndex).caches "client").Exclusive ∧
    (clientRun true 6).HandsOut clientIndex "client" ⟨1, .text "second"⟩ ∧
    ((clientRun true 7).world.registry clientIndex).object? "client" =
      some ⟨0, .text "first"⟩ := by
  have hcaches : ((clientRun true 7).world.registry clientIndex).caches "client" =
      ⟨some ⟨0, .text "first"⟩, none, some ⟨1, .text "second"⟩⟩ := rfl
  have hstart : ((clientWorld.registry clientIndex).caches "client").Exclusive := by decide
  have hhands : (clientRun true 6).HandsOut clientIndex "client" ⟨1, .text "second"⟩ :=
    Or.inl ⟨.early true, .expose _ _ _⟩
  have hbound : ((clientRun true 7).world.registry clientIndex).object? "client" =
      some ⟨0, .text "first"⟩ := rfl
  refine ⟨hstart, hcaches, ?_, hhands, hbound⟩
  rw [hcaches]
  simp [Caches.Exclusive]

end InstanceRegistry
