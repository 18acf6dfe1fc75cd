import InstanceRegistry.Proofs.Alias.Queries

/-!
What happens to the canonical names when the target of one alias changes. The names that lead to the
alias go along with it, and all others keep their chains.

* `AliasTable.AgreeOff`: tables that have the same targets but for one alias;
* `AliasTable.AgreeOff.canonical_eq`, `AliasTable.AgreeOff.canonical_eq_of_leads`: the canonical
  names in such tables;
* `AliasTable.register_cases`: the ways in which the registration of a new pair ends;
* `Registry.SubtreeMoved`: the names that lead to an alias have another canonical name;
* `subtree_moves`: what the registration and the removal of an alias do to the canonical names;
* `subtree_moves_retargeted`: an alias with aliases of its own gets another target.
-/

namespace InstanceRegistry

open Relation (ReflTransGen TransGen)

namespace AliasTable

variable {t t' : AliasTable} {name key a b x : Name}

/-! ### The end of a chain -/

lemma Hops.reflTransGen {hops : ℕ} (h : t.Hops hops a b) : ReflTransGen t.Targets a b := by
  induction h with
  | zero a => exact .refl
  | succ hstep _ ih => exact .head hstep ih

/-- A chain that ends with a name that is no alias ends with the canonical name. -/
lemma Acyclic.canonical_eq (ht : t.Acyclic) (h : ReflTransGen t.Targets x b)
    (hb : t.isAlias b = false) : t.canonical x = b := by
  by_cases hx : t.isAlias x = true
  · have hpath : TransGen t.Targets x b := by
      refine (Relation.reflTransGen_iff_eq_or_transGen.mp h).resolve_left ?_
      rintro rfl
      exact absurd (hx.symm.trans hb) (by simp)
    exact ((ht.canonical_eq_iff hb).mpr hpath).2
  · -- a name that is no alias stands for itself
    obtain ⟨_, -, hhops, -⟩ := ht.exists_hops_canonical x
    have hself : ∀ {c}, ReflTransGen t.Targets x c → c = x := by
      intro c hc
      rcases Relation.ReflTransGen.cases_head hc with rfl | ⟨d, hstep, -⟩
      · rfl
      · exact absurd hstep.isAlias hx
    rw [hself hhops.reflTransGen, hself h]

lemma Acyclic.reflTransGen_canonical (ht : t.Acyclic) (x : Name) :
    ReflTransGen t.Targets x (t.canonical x) ∧ t.isAlias (t.canonical x) = false := by
  obtain ⟨_, -, hhops, hend⟩ := ht.exists_hops_canonical x
  exact ⟨hhops.reflTransGen, hend⟩

/-! ### Tables that differ at one alias -/

/-- The two tables have the same targets for all names but `key`. -/
def AgreeOff (t t' : AliasTable) (key : Name) : Prop :=
  ∀ a, a ≠ key → ∀ b, t'.Targets a b ↔ t.Targets a b

namespace AgreeOff

/-- A chain that leads to the alias does so in the other table. -/
lemma leads (h : t.AgreeOff t' key) (hx : ReflTransGen t.Targets x key) :
    ReflTransGen t'.Targets x key := by
  induction hx using ReflTransGen.head_induction_on with
  | refl => exact .refl
  | @head a b hstep _ ih =>
      by_cases ha : a = key
      · rw [ha]
      · exact .head ((h a ha b).mpr hstep) ih

/-- A chain that never leads to the alias is a chain in the other table. -/
lemma chain (h : t.AgreeOff t' key) (hx : ¬ ReflTransGen t.Targets x key)
    (hb : ReflTransGen t.Targets x b) : ReflTransGen t'.Targets x b := by
  induction hb with
  | refl => exact .refl
  | @tail b c hpath hstep ih =>
      have hne : b ≠ key := by
        rintro rfl
        exact hx hpath
      exact ih.tail ((h b hne c).mpr hstep)

/-- A name that does not lead to the alias keeps its canonical name. -/
lemma canonical_eq (h : t.AgreeOff t' key) (ht : t.Acyclic) (ht' : t'.Acyclic)
    (hx : ¬ ReflTransGen t.Targets x key) : t'.canonical x = t.canonical x := by
  obtain ⟨hchain, hend⟩ := ht.reflTransGen_canonical x
  have hne : t.canonical x ≠ key := fun heq => hx (heq ▸ hchain)
  refine ht'.canonical_eq (h.chain hx hchain) ?_
  rw [Bool.eq_false_iff, ne_eq, isAlias_iff] at hend ⊢
  rintro ⟨b, hb⟩
  exact hend ⟨b, (h _ hne b).mp hb⟩

/-- A name that leads to the alias has its canonical name. -/
lemma canonical_eq_of_leads (h : t.AgreeOff t' key) (ht' : t'.Acyclic)
    (hx : ReflTransGen t.Targets x key) : t'.canonical x = t'.canonical key := by
  obtain ⟨hchain, hend⟩ := ht'.reflTransGen_canonical key
  exact ht'.canonical_eq ((h.leads hx).trans hchain) hend

end AgreeOff

lemma agreeOff_put (t : AliasTable) (key name : Name) :
    t.AgreeOff { t with targets := t.targets.insert key name } key := by
  intro a ha b
  rw [targets_put]
  simp [ha]

lemma agreeOff_drop (t : AliasTable) (key : Name) : t.AgreeOff (t.drop key) key := by
  intro a ha b
  rw [targets_drop]
  simp [ha]

/-- With a new target for the alias, its subtree gets the canonical name of that target. -/
lemma Acyclic.canonical_put (ht : t.Acyclic) (hne : key ≠ name)
    (hcheck : t.hasAlias key name = false) (hx : ReflTransGen t.Targets x key) :
    canonical { t with targets := t.targets.insert key name } x = t.canonical name := by
  have ht' := ht.insert hne hcheck
  have hagree := t.agreeOff_put key name
  have hstep : Targets { t with targets := t.targets.insert key name } key name :=
    (targets_put t key name).mpr (Or.inl ⟨rfl, rfl⟩)
  obtain ⟨hchain, hend⟩ := ht'.reflTransGen_canonical name
  calc canonical { t with targets := t.targets.insert key name } x
      = canonical { t with targets := t.targets.insert key name } key :=
        hagree.canonical_eq_of_leads ht' hx
    _ = canonical { t with targets := t.targets.insert key name } name :=
        ht'.canonical_eq (.head hstep hchain) hend
    _ = t.canonical name :=
        hagree.canonical_eq ht ht' (not_reflTransGen_of_hasAlias hne hcheck)

/-- Without a target, the alias is the canonical name of its subtree. -/
lemma Acyclic.canonical_drop (ht : t.Acyclic) (hx : ReflTransGen t.Targets x key) :
    (t.drop key).canonical x = key := by
  have hagree := t.agreeOff_drop key
  refine (ht.drop key).canonical_eq (hagree.leads hx) ?_
  rw [Bool.eq_false_iff, ne_eq, isAlias_iff]
  rintro ⟨b, hb⟩
  exact (targets_drop.mp hb).1 rfl

/-! ### New pairs -/

/-- The alias has a target and may not be given another one. -/
def Fixed (t : AliasTable) (key : Name) : Prop := t.isAlias key = true ∧ t.overriding = false

/-- A fixed alias gets no other target. -/
lemma register_of_fixed (hname : isBlank name = false) (hkey : isBlank key = false)
    (hne : key ≠ name) (hnew : ¬ t.Targets key name) (hfixed : t.Fixed key) :
    ∃ previous, t.Targets key previous ∧
      t.register name key = .error (.aliasConflict key name previous) := by
  obtain ⟨halias, hallowed⟩ := hfixed
  obtain ⟨previous, hprevious⟩ := isAlias_iff.mp halias
  have hget : t.targets.get? key = some previous := hprevious
  have hother : previous ≠ name := fun heq => hnew (heq ▸ hprevious)
  exact ⟨previous, hprevious, by simp [register, hname, hkey, hne, hget, hother, hallowed]⟩

/-- Any other alias gets its target if that closes no circle. -/
lemma register_of_not_fixed (hname : isBlank name = false) (hkey : isBlank key = false)
    (hne : key ≠ name) (hnew : ¬ t.Targets key name) (hfree : ¬ t.Fixed key) :
    ∃ registration, t.register name key = (t.bind key name).map (·, registration) := by
  cases hget : t.targets.get? key with
  | none => exact ⟨.added, by simp [register, hname, hkey, hne, hget]⟩
  | some previous =>
      have hother : previous ≠ name := fun heq => hnew (heq ▸ hget)
      have hallowed : t.overriding = true := by
        by_contra hforbidden
        exact hfree ⟨Targets.isAlias hget, Bool.not_eq_true _ ▸ hforbidden⟩
      exact ⟨.retargeted previous, by simp [register, hname, hkey, hne, hget, hother, hallowed]⟩

/-- How the registration of a pair ends that is not known: a fixed alias is a conflict, a name that
leads to the alias would close a circle, and any other pair is taken up. -/
lemma register_cases (hname : isBlank name = false) (hkey : isBlank key = false)
    (hne : key ≠ name) (hnew : ¬ t.Targets key name) :
    (t.Fixed key ∧ ∃ previous, t.Targets key previous ∧
      t.register name key = .error (.aliasConflict key name previous)) ∨
    (¬ t.Fixed key ∧ ReflTransGen t.Targets name key ∧
      t.register name key = .error (.circularAlias key name)) ∨
    (¬ t.Fixed key ∧ ¬ ReflTransGen t.Targets name key ∧ t.hasAlias key name = false ∧
      ∃ registration, t.register name key =
        .ok ({ t with targets := t.targets.insert key name }, registration)) := by
  by_cases hfixed : t.Fixed key
  · exact Or.inl ⟨hfixed, register_of_fixed hname hkey hne hnew hfixed⟩
  · obtain ⟨registration, hregister⟩ := register_of_not_fixed hname hkey hne hnew hfixed
    rw [hregister]
    cases hcheck : t.hasAlias key name with
    | true =>
        have hleads := (hasAlias_iff.mp hcheck).to_reflTransGen
        exact Or.inr (Or.inl ⟨hfixed, hleads, by simp [AliasTable.bind, hcheck, Except.map]⟩)
    | false =>
        have hmiss := not_reflTransGen_of_hasAlias hne hcheck
        exact Or.inr (Or.inr ⟨hfixed, hmiss, rfl, registration, by
          simp [AliasTable.bind, hcheck, Except.map]⟩)

end AliasTable

/-! ### Registries -/

variable {S : Setup}

namespace Registry

variable {g : Registry S} {name key : Name}

/-- From `g` to `h`, the names that lead to `key` have got the canonical name `target`, and all
others have kept theirs. -/
def SubtreeMoved (g : Registry S) (key target : Name) (h : Registry S) : Prop :=
  ∀ x, (ReflTransGen g.aliases.Targets x key → h.canonical x = target) ∧
    (¬ ReflTransGen g.aliases.Targets x key → h.canonical x = g.canonical x)

lemma subtreeMoved_put (hacyclic : g.aliases.Acyclic) (hne : key ≠ name)
    (hcheck : g.aliases.hasAlias key name = false) :
    g.SubtreeMoved key (g.canonical name)
      { g with aliases := { g.aliases with targets := g.aliases.targets.insert key name } } :=
  fun _ => ⟨hacyclic.canonical_put hne hcheck,
    (g.aliases.agreeOff_put key name).canonical_eq hacyclic (hacyclic.insert hne hcheck)⟩

lemma subtreeMoved_drop (hacyclic : g.aliases.Acyclic) (key : Name) :
    g.SubtreeMoved key key { g with aliases := g.aliases.drop key } :=
  fun _ => ⟨hacyclic.canonical_drop,
    (g.aliases.agreeOff_drop key).canonical_eq hacyclic (hacyclic.drop key)⟩

/-- A registration that fails changes nothing and reports nothing. -/
lemma registerAlias_eq_of_error {e : Error}
    (h : (g.apply (.registerAlias name key)).answer = .error e) :
    g.apply (.registerAlias name key) = { registry := g, answer := .error e } := by
  simp only [apply, registerAlias] at h ⊢
  cases hregister : g.aliases.register name key with
  | error e' =>
      rw [hregister] at h
      cases h
      rfl
  | ok result => rw [hregister] at h; cases h

/-- A removal that fails changes nothing and reports nothing. -/
lemma removeAlias_eq_of_error {e : Error}
    (h : (g.apply (.removeAlias key)).answer = .error e) :
    g.apply (.removeAlias key) = { registry := g, answer := .error e } := by
  simp only [apply, removeAlias] at h ⊢
  cases hremove : g.aliases.remove key with
  | error e' =>
      rw [hremove] at h
      cases h
      rfl
  | ok aliases => rw [hremove] at h; cases h

/-- The registration of a new pair: when it fails, with which error, and what it comes to. -/
lemma registerAlias_of_new (hacyclic : g.aliases.Acyclic) (hname : isBlank name = false)
    (hkey : isBlank key = false) (hne : key ≠ name) (hnew : ¬ g.aliases.Targets key name) :
    (∀ previous, (g.apply (.registerAlias name key)).answer =
        .error (.aliasConflict key name previous) ↔
      g.aliases.Fixed key ∧ g.aliases.Targets key previous) ∧
    ((g.apply (.registerAlias name key)).answer = .error (.circularAlias key name) ↔
      ¬ g.aliases.Fixed key ∧ ReflTransGen g.aliases.Targets name key) ∧
    ((g.apply (.registerAlias name key)).answer = .ok () ↔
      ¬ g.aliases.Fixed key ∧ ¬ ReflTransGen g.aliases.Targets name key) ∧
    ((g.apply (.registerAlias name key)).answer = .ok () →
      g.SubtreeMoved key (g.canonical name) (g.apply (.registerAlias name key)).registry) := by
  simp only [apply, registerAlias]
  rcases AliasTable.register_cases hname hkey hne hnew with
    ⟨hfixed, registered, hregistered, hregister⟩ | ⟨hfree, hleads, hregister⟩ |
      ⟨hfree, hmiss, hcheck, registration, hregister⟩
  · have hsame : ∀ previous, registered = previous ↔ g.aliases.Targets key previous :=
      fun previous => ⟨fun heq => heq ▸ hregistered,
        fun htarget => Option.some.inj (hregistered.symm.trans htarget)⟩
    rw [hregister]
    simp [hfixed, hsame]
  · rw [hregister]
    simp [hfree, hleads]
  · rw [hregister]
    simp [hfree, hmiss, subtreeMoved_put hacyclic hne hcheck]

/-- An alias that is registered for itself loses its target. -/
lemma registerAlias_self (hacyclic : g.aliases.Acyclic) (hkey : isBlank key = false) :
    (g.apply (.registerAlias key key)).answer = .ok () ∧
      g.SubtreeMoved key key (g.apply (.registerAlias key key)).registry := by
  have hregister : g.aliases.register key key =
      .ok (g.aliases.drop key, .cleared (g.aliases.isAlias key)) := by
    simp [AliasTable.register, hkey]
  simp only [apply, registerAlias, hregister]
  exact ⟨trivial, subtreeMoved_drop hacyclic key⟩

/-- The removal of an alias succeeds if there is one. -/
lemma removeAlias_of_acyclic (hacyclic : g.aliases.Acyclic) (key : Name) :
    ((g.apply (.removeAlias key)).answer = .ok () ↔ g.aliases.isAlias key = true) ∧
      ((g.apply (.removeAlias key)).answer = .ok () →
        g.SubtreeMoved key key (g.apply (.removeAlias key)).registry) := by
  simp only [apply, removeAlias]
  by_cases halias : g.aliases.isAlias key = true
  · have hremove : g.aliases.remove key = .ok (g.aliases.drop key) := by
      simp [AliasTable.remove, halias]
    rw [hremove]
    simp [halias, subtreeMoved_drop hacyclic key]
  · have hremove : g.aliases.remove key = .error (.unknownAlias key) := by
      simp [AliasTable.remove, halias]
    rw [hremove]
    simp [halias]

end Registry

/-- **Registering and removing an alias move one subtree**, at every moment of a run that begins
with a new registry. A new pair of names is a conflict exactly if the alias has a target and may not
be given another one, else it would close a circle exactly if the name leads to the alias, and else
it is taken up: then the alias and whatever leads to it stand for what the name stands for. An alias
that is registered for itself or removed stands for itself, and so does whatever leads to it. All
other names stand for what they stood for, and a call that fails changes nothing. -/
theorem subtree_moves {α : Type} (caller : Caller S) (r : S.Index) (allowed : Bool)
    (s : Script S α) (w : World S) (k : ℕ) {name key : Name} (hname : isBlank name = false)
    (hkey : isBlank key = false) (hne : key ≠ name) :
    let g := (run caller k
      (Config.start s (w.setRegistry r (Registry.withOverriding allowed)))).world.registry r
    let registered := g.apply (.registerAlias name key)
    let cleared := g.apply (.registerAlias key key)
    let removed := g.apply (.removeAlias key)
    (¬ g.aliases.Targets key name →
      (∀ previous, registered.answer = .error (.aliasConflict key name previous) ↔
        (g.aliases.isAlias key = true ∧ g.aliases.overriding = false) ∧
          g.aliases.Targets key previous) ∧
      (registered.answer = .error (.circularAlias key name) ↔
        ¬ (g.aliases.isAlias key = true ∧ g.aliases.overriding = false) ∧
          ReflTransGen g.aliases.Targets name key) ∧
      (registered.answer = .ok () ↔
        ¬ (g.aliases.isAlias key = true ∧ g.aliases.overriding = false) ∧
          ¬ ReflTransGen g.aliases.Targets name key) ∧
      (registered.answer = .ok () →
        g.SubtreeMoved key (g.canonical name) registered.registry)) ∧
    (cleared.answer = .ok () ∧ g.SubtreeMoved key key cleared.registry) ∧
    ((removed.answer = .ok () ↔ g.aliases.isAlias key = true) ∧
      (removed.answer = .ok () → g.SubtreeMoved key key removed.registry)) ∧
    (∀ e, registered.answer = .error e → registered = { registry := g, answer := .error e }) ∧
    ∀ e, removed.answer = .error e → removed = { registry := g, answer := .error e } := by
  intro g registered cleared removed
  have hacyclic : g.aliases.Acyclic := acyclic_aliases_of_run r allowed s w k
  exact ⟨Registry.registerAlias_of_new hacyclic hname hkey hne,
    Registry.registerAlias_self hacyclic hkey, Registry.removeAlias_of_acyclic hacyclic key,
    fun _ => Registry.registerAlias_eq_of_error, fun _ => Registry.removeAlias_eq_of_error⟩

/-! ### An alias that gets another target -/

/-- The registry at the end of the run in which the server and its aliases are registered. -/
def branchingRegistry : Registry branchingSetup :=
  (run branchingCaller 5 (Config.start branching
    (branchingWorld.setRegistry branchingIndex (Registry.withOverriding true)))).world.registry
      branchingIndex

/-- The pairs of the registry, in order of registration. -/
def branchingPairs : List (Name × Name) :=
  [("web", "server"), ("site", "server"), ("www", "web"), ("home", "www")]

lemma targets_branchingRegistry {a b : Name} :
    branchingRegistry.aliases.Targets a b ↔ (a, b) ∈ branchingPairs := by
  have hentries : branchingRegistry.aliases.targets.entries = branchingPairs := by decide +kernel
  rw [← hentries]
  exact NameMap.get?_eq_some_iff

/-- The alias `web` is registered for a proxy, and takes `home` along, which is two hops away. The
other alias of the server stays. If `web` is removed instead, `home` stands for it. -/
theorem subtree_moves_retargeted :
    (isBlank "proxy" = false ∧ isBlank "web" = false ∧ "web" ≠ "proxy") ∧
    ¬ branchingRegistry.aliases.Targets "web" "proxy" ∧
    (branchingRegistry.apply (.registerAlias "proxy" "web")).answer = .ok () ∧
    (branchingRegistry.apply (.registerAlias "proxy" "web")).registry.canonical "home" =
      "proxy" ∧
    (branchingRegistry.apply (.registerAlias "proxy" "web")).registry.canonical "site" =
      "server" ∧
    (branchingRegistry.apply (.removeAlias "web")).registry.canonical "home" = "web" := by
  have hproxy : isBlank "proxy" = false := by decide +kernel
  have hweb : isBlank "web" = false := by decide +kernel
  have hne : "web" ≠ "proxy" := by decide
  have hnew : ¬ branchingRegistry.aliases.Targets "web" "proxy" :=
    targets_branchingRegistry.not.mpr (by decide)
  have hhome : ReflTransGen branchingRegistry.aliases.Targets "home" "web" :=
    .head (targets_branchingRegistry.mpr (by decide : ("home", "www") ∈ branchingPairs))
      (.single (targets_branchingRegistry.mpr (by decide)))
  have hsite : ¬ ReflTransGen branchingRegistry.aliases.Targets "site" "web" := by
    intro hleads
    rcases ReflTransGen.cases_head hleads with heq | ⟨b, hstep, hrest⟩
    · exact absurd heq (by decide)
    · obtain rfl : b = "server" := by
        simpa [branchingPairs] using targets_branchingRegistry.mp hstep
      rcases ReflTransGen.cases_head hrest with heq | ⟨c, hstep, -⟩
      · exact absurd heq (by decide)
      · simpa [branchingPairs] using targets_branchingRegistry.mp hstep
  have hserver : branchingRegistry.canonical "site" = "server" := by decide +kernel
  have hanswer : (branchingRegistry.apply (.registerAlias "proxy" "web")).answer = .ok () := rfl
  have hremoved : (branchingRegistry.apply (.removeAlias "web")).answer = .ok () := rfl
  obtain ⟨hregister, -, ⟨-, hremove⟩, -⟩ := subtree_moves branchingCaller branchingIndex true
    branching branchingWorld 5 hproxy hweb hne
  obtain ⟨-, -, -, hmoved⟩ := hregister hnew
  have hcanonical : branchingRegistry.canonical "proxy" = "proxy" := by decide +kernel
  exact ⟨⟨hproxy, hweb, hne⟩, hnew, hanswer, ((hmoved hanswer "home").1 hhome).trans hcanonical,
    ((hmoved hanswer "site").2 hsite).trans hserver, (hremove hremoved "home").1 hhome⟩

end InstanceRegistry
