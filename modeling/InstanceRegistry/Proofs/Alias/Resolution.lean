import InstanceRegistry.Alias.Resolution
import InstanceRegistry.Proofs.Alias.Chains
import InstanceRegistry.Proofs.Alias.Registration
import InstanceRegistry.Registry.Update

/-!
What becomes of a table whose aliases and targets are all resolved. The entries are resolved one
after another in a table that still holds the later ones as they were, so an entry may run into a
pair that has not been resolved yet. If the resolver leaves its own answers alone, such a pair is
one that resolves to itself.

* `AliasTable.ResolvesTo`: the pair of names that an alias and its target resolve to;
* `AliasTable.Rewrites`, `AliasTable.rewrites_of_resolveEntry`: the ways in which one entry is
  resolved;
* `AliasTable.Halfway`: a table in which some entries are resolved and the others are left;
* `AliasTable.targets_of_resolve`: the targets when all entries are resolved;
* `AliasTable.resolve_eq_self`: a table whose entries resolve to themselves stays as it is;
* `resolution_image`: both for a registry;
* `resolution_image_placeholders`: a table in which pairs move, meet and go.
-/

namespace InstanceRegistry

namespace AliasTable

variable {t t' : AliasTable} {resolver : Name → Option Name} {key target newKey newTarget : Name}

/-! ### One entry -/

/-- An answer of the resolver that is not empty is resolved to itself. -/
def Idempotent (resolver : Name → Option Name) : Prop :=
  ∀ text answer, resolver text = some answer → answer ≠ "" → resolver answer = some answer

/-- The alias `key` with the target `target` resolves to a pair of different names, neither of them
empty. -/
structure ResolvesTo (resolver : Name → Option Name) (key target newKey newTarget : Name) :
    Prop where
  key : resolver key = some newKey
  target : resolver target = some newTarget
  key_ne : newKey ≠ ""
  target_ne : newTarget ≠ ""
  ne : newKey ≠ newTarget

lemma resolved_eq_some {text answer : Name} :
    resolved resolver text = some answer ↔ resolver text = some answer ∧ answer ≠ "" := by
  simp [resolved, Option.filter_eq_some_iff]

lemma resolvesTo_iff : ResolvesTo resolver key target newKey newTarget ↔
    resolved resolver key = some newKey ∧ resolved resolver target = some newTarget ∧
      newKey ≠ newTarget := by
  rw [resolved_eq_some, resolved_eq_some]
  constructor
  · rintro ⟨hkey, htarget, hkeyne, htargetne, hne⟩
    exact ⟨⟨hkey, hkeyne⟩, ⟨htarget, htargetne⟩, hne⟩
  · rintro ⟨⟨hkey, hkeyne⟩, ⟨htarget, htargetne⟩, hne⟩
    exact ⟨hkey, htarget, hkeyne, htargetne, hne⟩

/-- A pair resolves to one pair only. -/
lemma ResolvesTo.unique {otherKey otherTarget : Name}
    (h : ResolvesTo resolver key target newKey newTarget)
    (h' : ResolvesTo resolver key target otherKey otherTarget) :
    newKey = otherKey ∧ newTarget = otherTarget :=
  ⟨Option.some.inj (h.key.symm.trans h'.key), Option.some.inj (h.target.symm.trans h'.target)⟩

/-- What a pair resolves to resolves to itself. -/
lemma ResolvesTo.self (hresolver : Idempotent resolver)
    (h : ResolvesTo resolver key target newKey newTarget) :
    ResolvesTo resolver newKey newTarget newKey newTarget where
  key := hresolver key newKey h.key h.key_ne
  target := hresolver target newTarget h.target h.target_ne
  key_ne := h.key_ne
  target_ne := h.target_ne
  ne := h.ne

variable (t resolver key target) in
/-- A way in which the alias `key` with the target `target` is resolved. -/
inductive Rewrites : AliasTable → Prop
  | dropped (h : ∀ newKey newTarget, ¬ ResolvesTo resolver key target newKey newTarget) :
      Rewrites (t.drop key)
  | merged {newKey newTarget : Name} (h : ResolvesTo resolver key target newKey newTarget)
      (hne : newKey ≠ key) (hsame : t.targets.get? newKey = some newTarget) : Rewrites (t.drop key)
  | moved {newKey newTarget : Name} (h : ResolvesTo resolver key target newKey newTarget)
      (hne : newKey ≠ key) (hnone : t.targets.get? newKey = none)
      (hcheck : t.hasAlias newKey newTarget = false) :
      Rewrites { t with targets := (t.targets.erase key).insert newKey newTarget }
  | retargeted {newTarget : Name} (h : ResolvesTo resolver key target key newTarget)
      (hother : target ≠ newTarget) (hcheck : t.hasAlias key newTarget = false) :
      Rewrites { t with targets := t.targets.insert key newTarget }
  | kept (h : ResolvesTo resolver key target key target) : Rewrites t

theorem rewrites_of_resolveEntry (h : t.resolveEntry resolver key target = .ok t') :
    t.Rewrites resolver key target t' := by
  unfold resolveEntry at h
  split at h
  · next newKey newTarget hkey htarget =>
      split at h
      · next hsame =>
          cases h
          refine .dropped fun k n hpair => ?_
          obtain ⟨hk, hn, hne⟩ := resolvesTo_iff.mp hpair
          obtain rfl := Option.some.inj (hkey.symm.trans hk)
          obtain rfl := Option.some.inj (htarget.symm.trans hn)
          exact hne hsame
      next hdifferent =>
      have hpair := resolvesTo_iff.mpr ⟨hkey, htarget, hdifferent⟩
      split at h
      · next hmoves =>
          split at h
          · next existing hexisting =>
              split at h
              · next hcovered =>
                  cases h
                  exact .merged hpair hmoves (hcovered ▸ hexisting)
              · cases h
          · next hnone =>
              split at h
              · cases h
              · next hcheck =>
                  cases h
                  exact .moved hpair hmoves hnone (Bool.not_eq_true _ ▸ hcheck)
      · next hstays =>
          obtain rfl : newKey = key := not_not.mp hstays
          split at h
          · next hother =>
              obtain ⟨hcheck, rfl⟩ := bind_eq_ok h
              exact .retargeted hpair hother hcheck
          · next hkept =>
              cases h
              obtain rfl : target = newTarget := not_not.mp hkept
              exact .kept hpair
  · next hmissing =>
      cases h
      refine .dropped fun k n hpair => ?_
      obtain ⟨hk, hn, -⟩ := resolvesTo_iff.mp hpair
      exact hmissing k n hk hn

/-- A pair that resolves to itself stays. -/
lemma resolveEntry_eq_self (h : ResolvesTo resolver key target key target) :
    t.resolveEntry resolver key target = .ok t := by
  obtain ⟨hkey, htarget, hne⟩ := resolvesTo_iff.mp h
  simp [resolveEntry, hkey, htarget, hne]

lemma targets_drop {x y : Name} : (t.drop key).Targets x y ↔ x ≠ key ∧ t.Targets x y := by
  show (t.targets.erase key).get? x = some y ↔ _
  rw [NameMap.get?_erase]
  by_cases hx : x = key <;> simp [hx, Targets]

lemma targets_put (t : AliasTable) (key target : Name) {x y : Name} :
    Targets { t with targets := t.targets.insert key target } x y ↔
      (x = key ∧ y = target) ∨ (x ≠ key ∧ t.Targets x y) := by
  show (t.targets.insert key target).get? x = some y ↔ _
  rw [NameMap.get?_insert]
  by_cases hx : x = key <;> simp [hx, Targets, eq_comm]

/-- **One entry**: its alias goes, and what the pair resolves to comes. -/
theorem Rewrites.targets_iff (h : t.Rewrites resolver key target t') (hleft : t.Targets key target)
    {x y : Name} : t'.Targets x y ↔
      ResolvesTo resolver key target x y ∨ (x ≠ key ∧ t.Targets x y) := by
  have honly : ∀ {newKey newTarget : Name}, ResolvesTo resolver key target newKey newTarget →
      (ResolvesTo resolver key target x y ↔ x = newKey ∧ y = newTarget) := fun hpair =>
    ⟨fun hxy => hxy.unique hpair, fun ⟨hx, hy⟩ => hx ▸ hy ▸ hpair⟩
  cases h with
  | dropped hnone => rw [targets_drop, or_iff_right (hnone x y)]
  | merged hpair hne hsame =>
      rw [targets_drop, honly hpair]
      refine ⟨Or.inr, ?_⟩
      rintro (⟨rfl, rfl⟩ | hold)
      · exact ⟨hne, hsame⟩
      · exact hold
  | @moved newKey newTarget hpair hne hnone _ =>
      have hmoved := targets_put (t.drop key) newKey newTarget (x := x) (y := y)
      rw [targets_drop] at hmoved
      rw [honly hpair]
      refine hmoved.trans (or_congr_right ⟨And.right, fun hold => ⟨?_, hold⟩⟩)
      rintro rfl
      exact absurd (hnone.symm.trans hold.2) (by simp)
  | retargeted hpair _ _ => rw [targets_put, honly hpair]
  | kept hpair =>
      rw [honly hpair]
      constructor
      · intro hxy
        by_cases hx : x = key
        · subst hx
          exact Or.inl ⟨rfl, Option.some.inj (hxy.symm.trans hleft)⟩
        · exact Or.inr ⟨hx, hxy⟩
      · rintro (⟨rfl, rfl⟩ | hold)
        · exact hleft
        · exact hold.2

/-! ### All entries -/

/-- The entries in `before` are resolved, and those in `rest` are as they were. -/
structure Halfway (resolver : Name → Option Name) (before rest : List (Name × Name))
    (t : AliasTable) : Prop where
  left : ∀ {a n}, (a, n) ∈ rest → t.Targets a n
  sound : ∀ {x y}, t.Targets x y →
    (x, y) ∈ rest ∨ ∃ a n, (a, n) ∈ before ∧ ResolvesTo resolver a n x y
  complete : ∀ {a n x y}, (a, n) ∈ before → ResolvesTo resolver a n x y → t.Targets x y

namespace Halfway

variable {before rest : List (Name × Name)}

lemma start (resolver : Name → Option Name) (t : AliasTable) :
    Halfway resolver [] t.targets.entries t where
  left hmem := NameMap.get?_eq_some_iff.mpr hmem
  sound hxy := Or.inl (NameMap.get?_eq_some_iff.mp hxy)
  complete hmem := absurd hmem List.not_mem_nil

/-- A resolved pair has the alias of an entry that is left only if that entry resolves to itself,
and then the two are the same. -/
lemma eq_of_resolvesTo (hresolver : Idempotent resolver)
    (h : Halfway resolver before ((key, target) :: rest) t) {a n y : Name}
    (hmem : (a, n) ∈ before) (hpair : ResolvesTo resolver a n key y) :
    y = target ∧ ResolvesTo resolver key target key target := by
  have hresolved : t.Targets key y := h.complete hmem hpair
  have hleft : t.Targets key target := h.left List.mem_cons_self
  obtain rfl : y = target := Option.some.inj (hresolved.symm.trans hleft)
  exact ⟨rfl, hpair.self hresolver⟩

/-- The next entry is resolved. -/
lemma step (hresolver : Idempotent resolver)
    (h : Halfway resolver before ((key, target) :: rest) t)
    (hfresh : key ∉ rest.map Prod.fst) (hrewrites : t.Rewrites resolver key target t') :
    Halfway resolver (before ++ [(key, target)]) rest t' := by
  have htargets := fun x y => hrewrites.targets_iff (h.left List.mem_cons_self) (x := x) (y := y)
  refine ⟨fun {a n} hmem => ?_, fun {x y} hxy => ?_, fun {a n x y} hmem hpair => ?_⟩
  · have hne : a ≠ key := fun ha => hfresh (ha ▸ List.mem_map_of_mem hmem)
    exact (htargets a n).mpr (Or.inr ⟨hne, h.left (List.mem_cons_of_mem _ hmem)⟩)
  · rcases (htargets x y).mp hxy with hpair | ⟨hne, hold⟩
    · exact Or.inr ⟨key, target, by simp, hpair⟩
    · refine (h.sound hold).imp (fun hmem => ?_) fun ⟨a, n, hmem, hpair⟩ => ?_
      · exact (List.mem_cons.mp hmem).resolve_left fun heq => hne (congrArg Prod.fst heq)
      · exact ⟨a, n, List.mem_append_left _ hmem, hpair⟩
  · rw [htargets]
    rcases List.mem_append.mp hmem with hbefore | hnew
    · by_cases hx : x = key
      · subst hx
        obtain ⟨rfl, hself⟩ := h.eq_of_resolvesTo hresolver hbefore hpair
        exact Or.inl hself
      · exact Or.inr ⟨hx, h.complete hbefore hpair⟩
    · obtain ⟨rfl, rfl⟩ := Prod.mk.inj (List.mem_singleton.mp hnew)
      exact Or.inl hpair

/-- The rest is resolved, one entry after another. -/
lemma finish (hresolver : Idempotent resolver) (h : Halfway resolver before rest t)
    (hnodup : (rest.map Prod.fst).Nodup)
    (hresolve : rest.foldlM (fun working entry =>
      working.resolveEntry resolver entry.1 entry.2) t = .ok t') :
    Halfway resolver (before ++ rest) [] t' := by
  induction rest generalizing before t with
  | nil =>
      cases hresolve
      rwa [List.append_nil]
  | cons entry rest ih =>
      obtain ⟨key, target⟩ := entry
      rw [List.foldlM_cons] at hresolve
      cases hentry : t.resolveEntry resolver key target with
      | error e => rw [hentry] at hresolve; cases hresolve
      | ok working =>
          rw [hentry] at hresolve
          obtain ⟨hfresh, hnodup⟩ := List.nodup_cons.mp hnodup
          have hstep := h.step hresolver hfresh (rewrites_of_resolveEntry hentry)
          have hnext := ih hstep hnodup hresolve
          rwa [List.append_assoc] at hnext

end Halfway

/-- **The targets when all entries are resolved** are the pairs that the entries resolve to. -/
theorem targets_of_resolve (hresolver : Idempotent resolver) (h : t.resolve resolver = .ok t')
    {x y : Name} :
    t'.Targets x y ↔ ∃ a n, t.Targets a n ∧ ResolvesTo resolver a n x y := by
  have hdone := (Halfway.start resolver t).finish hresolver t.targets.names_nodup h
  simp only [List.nil_append] at hdone
  constructor
  · intro hxy
    obtain ⟨a, n, hmem, hpair⟩ := (hdone.sound hxy).resolve_left List.not_mem_nil
    exact ⟨a, n, NameMap.get?_eq_some_iff.mpr hmem, hpair⟩
  · rintro ⟨a, n, htarget, hpair⟩
    exact hdone.complete (NameMap.get?_eq_some_iff.mp htarget) hpair

/-- **A table whose entries resolve to themselves** stays as it is. -/
theorem resolve_eq_self (h : ∀ x y, t.Targets x y → ResolvesTo resolver x y x y) :
    t.resolve resolver = .ok t := by
  have hentries : ∀ entry ∈ t.targets.entries,
      ResolvesTo resolver entry.1 entry.2 entry.1 entry.2 :=
    fun entry hentry => h _ _ (NameMap.get?_eq_some_iff.mpr hentry)
  unfold resolve
  generalize t.targets.entries = entries at hentries
  induction entries with
  | nil => rfl
  | cons entry rest ih =>
      rw [List.foldlM_cons, resolveEntry_eq_self (hentries entry List.mem_cons_self)]
      exact ih fun other hother => hentries other (List.mem_cons_of_mem _ hother)

end AliasTable

/-! ### Registries -/

variable {S : Setup}

/-- A resolution succeeds if that of the table does, and changes nothing but the aliases. -/
lemma Registry.resolveAliases_eq_ok {g : Registry S} {resolver : Name → Option Name}
    (h : (g.apply (.resolveAliases resolver)).answer = .ok ()) :
    ∃ aliases, g.aliases.resolve resolver = .ok aliases ∧
      (g.apply (.resolveAliases resolver)).registry = { g with aliases } := by
  simp only [apply, resolveAliases] at h ⊢
  cases hresolve : g.aliases.resolve resolver with
  | error e => rw [hresolve] at h; cases h
  | ok aliases => exact ⟨aliases, rfl, rfl⟩

/-- **A successful resolution is the image of the aliases**: if the resolver leaves its own answers
alone, then exactly those pairs of an alias and its target are in the new table that a pair in the
old one resolves to. Then the same resolution succeeds again, and changes nothing. -/
theorem resolution_image (g : Registry S) (resolver : Name → Option Name)
    (hresolver : AliasTable.Idempotent resolver)
    (h : (g.apply (.resolveAliases resolver)).answer = .ok ()) :
    let resolved := (g.apply (.resolveAliases resolver)).registry
    (∀ x y, resolved.aliases.Targets x y ↔
      ∃ a n, g.aliases.Targets a n ∧ AliasTable.ResolvesTo resolver a n x y) ∧
    (resolved.apply (.resolveAliases resolver)).answer = .ok () ∧
    (resolved.apply (.resolveAliases resolver)).registry = resolved := by
  obtain ⟨aliases, hresolve, hregistry⟩ := Registry.resolveAliases_eq_ok h
  have htargets : ∀ x y, aliases.Targets x y ↔
      ∃ a n, g.aliases.Targets a n ∧ AliasTable.ResolvesTo resolver a n x y :=
    fun x y => AliasTable.targets_of_resolve hresolver hresolve
  have hagain : aliases.resolve resolver = .ok aliases := by
    refine AliasTable.resolve_eq_self fun x y hxy => ?_
    obtain ⟨a, n, -, hpair⟩ := (htargets x y).mp hxy
    exact hpair.self hresolver
  intro resolved
  have heq : resolved = { g with aliases } := hregistry
  rw [heq]
  refine ⟨htargets, ?_, ?_⟩ <;> simp [Registry.apply, Registry.resolveAliases, hagain]

/-! ### Placeholders -/

/-- One registry, and nothing else from outside. -/
def placeholderSetup : Setup := ⟨.basic, 1, Empty, Empty, Empty, Unit, Empty⟩

/-- Some names are placeholders. Three of them stand for other names, one for nothing, and one for
the empty name. -/
def placeholder (text : Name) : Option Name :=
  if text = "@db" then some "dataSource"
  else if text = "@nickname" then some "ds"
  else if text = "@store" then some "store"
  else if text = "@gone" then none
  else if text = "@blank" then some ""
  else some text

lemma idempotent_placeholder : AliasTable.Idempotent placeholder := by
  intro text answer h hne
  unfold placeholder at h
  split_ifs at h
  · obtain rfl := Option.some.inj h
    decide
  · obtain rfl := Option.some.inj h
    decide
  · obtain rfl := Option.some.inj h
    decide
  · exact absurd (Option.some.inj h).symm hne
  · obtain rfl := Option.some.inj h
    simp [placeholder, *]

/-- Aliases with placeholders, each after the name that it stands for. The first one changes its
target, and the second one joins it. Then come an alias of nothing, an alias of itself, and an empty
one. The last but one moves, and the last one stays. -/
def placeholders : Registry placeholderSetup :=
  [("@db", "ds"), ("@db", "@nickname"), ("@gone", "lost"), ("@db", "dataSource"),
    ("kept", "@blank"), ("ds", "@store"), ("ds", "db")].foldl
      (fun g pair => (g.apply (.registerAlias pair.1 pair.2)).registry) {}

/-- Three of the seven aliases are left, and the one that moves is now the last one. -/
theorem resolution_image_placeholders :
    AliasTable.Idempotent placeholder ∧
    placeholders.aliases.targets.names =
      ["ds", "@nickname", "lost", "dataSource", "@blank", "@store", "db"] ∧
    (placeholders.apply (.resolveAliases placeholder)).answer = .ok () ∧
    (∀ x y, (placeholders.apply (.resolveAliases placeholder)).registry.aliases.Targets x y ↔
      ∃ a n, placeholders.aliases.Targets a n ∧ AliasTable.ResolvesTo placeholder a n x y) ∧
    (placeholders.apply (.resolveAliases placeholder)).registry.aliases.targets.entries =
      [("ds", "dataSource"), ("db", "ds"), ("store", "ds")] := by
  have hanswer : (placeholders.apply (.resolveAliases placeholder)).answer = .ok () := rfl
  obtain ⟨himage, -, -⟩ :=
    resolution_image placeholders placeholder idempotent_placeholder hanswer
  exact ⟨idempotent_placeholder, by decide +kernel, hanswer, himage, by decide +kernel⟩

end InstanceRegistry
