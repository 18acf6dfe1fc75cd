import InstanceRegistry.Proofs.Alias.Queries

/-!
When the resolution of all aliases fails. It must fail if the pairs that the entries resolve to
contradict each other: if they give an alias two targets, or close a circle. Otherwise it fails only
because an entry is resolved in a table that still holds later ones as they were: the alias of its
pair has a target that is yet to be resolved, or the target of its pair leads to the alias by way of
an entry that is yet to go. That depends on the order of the entries, and in some order it does not
happen.

* `AliasTable.Refused`, `AliasTable.refused_of_resolveEntry`: when one entry fails;
* `AliasTable.Midway`, `AliasTable.resolve_eq_error_iff_refused`: when all entries together fail;
* `AliasTable.Contradictory`, `AliasTable.Premature`: the two reasons;
* `AliasTable.resolve_eq_error_iff`: there is no other reason;
* `AliasTable.ordered`, `AliasTable.not_premature_ordered`: an order in which no entry comes too
  early;
* `resolution_fails_iff`: all of this for a registry at any moment of a run;
* `resolution_conflict_premature`, `resolution_fails_iff_chained`: a conflict and a circle that
  there are in one order only.
-/

namespace InstanceRegistry

open Relation (ReflTransGen TransGen)

namespace AliasTable

variable {t t' : AliasTable} {resolver : Name → Option Name} {key target : Name}
  {before rest : List (Name × Name)}

lemma mem_entries_iff : (key, target) ∈ t.targets.entries ↔ t.Targets key target :=
  NameMap.get?_eq_some_iff.symm

/-! ### One entry -/

/-- The pair that the entry resolves to is not let in among the targets: its alias has another
target, or is where its target leads. -/
def Refused (resolver : Name → Option Name) (targets : Name → Name → Prop) (key target : Name) :
    Prop :=
  ∃ x y, ResolvesTo resolver key target x y ∧
    ((x ≠ key ∧ ∃ z, targets x z ∧ z ≠ y) ∨ TransGen targets y x)

lemma refused_of_resolveEntry {e : Error} (h : t.resolveEntry resolver key target = .error e) :
    Refused resolver t.Targets key target := by
  unfold resolveEntry at h
  split at h
  · next newKey newTarget hkey htarget =>
      split at h
      · cases h
      next hdifferent =>
      refine ⟨newKey, newTarget, resolvesTo_iff.mpr ⟨hkey, htarget, hdifferent⟩, ?_⟩
      split at h
      · next hmoves =>
          split at h
          · next existing hexisting =>
              split at h
              · cases h
              · next hother => exact Or.inl ⟨hmoves, existing, hexisting, hother⟩
          · split at h
            · next hcircle => exact Or.inr (hasAlias_iff.mp hcircle)
            · cases h
      · next hstays =>
          obtain rfl : newKey = key := not_not.mp hstays
          split at h
          · unfold AliasTable.bind at h
            split at h
            · next hcircle => exact Or.inr (hasAlias_iff.mp hcircle)
            · cases h
          · cases h
  · cases h

/-- An entry that is resolved was not refused. In a table without circles, the target of a pair that
is there already does not lead back. -/
lemma Rewrites.not_refused (ht : t.Acyclic) (hleft : t.Targets key target)
    (h : t.Rewrites resolver key target t') : ¬ Refused resolver t.Targets key target := by
  rintro ⟨x, y, hpair, hrefused⟩
  cases h with
  | dropped hnone => exact hnone x y hpair
  | merged hpair' _ hsame =>
      obtain ⟨rfl, rfl⟩ := hpair.unique hpair'
      rcases hrefused with ⟨-, z, hz, hother⟩ | hcircle
      · exact hother (Option.some.inj (hz.symm.trans hsame))
      · exact ht _ (hcircle.tail hsame)
  | moved hpair' _ hnone hcheck =>
      obtain ⟨rfl, rfl⟩ := hpair.unique hpair'
      rcases hrefused with ⟨-, z, hz, -⟩ | hcircle
      · exact absurd (hnone.symm.trans hz) (by simp)
      · exact not_reflTransGen_of_hasAlias hpair'.ne hcheck hcircle.to_reflTransGen
  | retargeted hpair' _ hcheck =>
      obtain ⟨rfl, rfl⟩ := hpair.unique hpair'
      rcases hrefused with ⟨hmoves, -⟩ | hcircle
      · exact hmoves rfl
      · exact not_reflTransGen_of_hasAlias hpair'.ne hcheck hcircle.to_reflTransGen
  | kept hpair' =>
      obtain ⟨rfl, rfl⟩ := hpair.unique hpair'
      rcases hrefused with ⟨hmoves, -⟩ | hcircle
      · exact hmoves rfl
      · exact ht _ (hcircle.tail hleft)

/-! ### All entries -/

/-- The targets when the entries in `before` are resolved and those in `rest` are as they were. -/
def Midway (resolver : Name → Option Name) (before rest : List (Name × Name)) (x y : Name) : Prop :=
  (x, y) ∈ rest ∨ ∃ a n, (a, n) ∈ before ∧ ResolvesTo resolver a n x y

lemma Halfway.targets_eq (h : Halfway resolver before rest t) :
    t.Targets = Midway resolver before rest := by
  ext x y
  refine ⟨h.sound, ?_⟩
  rintro (hmem | ⟨a, n, hmem, hpair⟩)
  · exact h.left hmem
  · exact h.complete hmem hpair

/-- Some entry among the rest is refused, once those before it are resolved. -/
def RefusesIn (resolver : Name → Option Name) (before rest : List (Name × Name)) : Prop :=
  ∃ done key target later, rest = done ++ (key, target) :: later ∧
    Refused resolver (Midway resolver (before ++ done) ((key, target) :: later)) key target

lemma refusesIn_cons {entry : Name × Name} : RefusesIn resolver before (entry :: rest) ↔
    Refused resolver (Midway resolver before (entry :: rest)) entry.1 entry.2 ∨
      RefusesIn resolver (before ++ [entry]) rest := by
  constructor
  · rintro ⟨done, key, target, later, hrest, hrefused⟩
    cases done with
    | nil =>
        obtain ⟨rfl, rfl⟩ := List.cons.inj hrest
        rw [List.append_nil] at hrefused
        exact Or.inl hrefused
    | cons first done =>
        obtain ⟨rfl, rfl⟩ := List.cons.inj hrest
        refine Or.inr ⟨done, key, target, later, rfl, ?_⟩
        rwa [List.append_assoc]
  · rintro (hrefused | ⟨done, key, target, later, rfl, hrefused⟩)
    · exact ⟨[], entry.1, entry.2, rest, rfl, by rwa [List.append_nil]⟩
    · refine ⟨entry :: done, key, target, later, rfl, ?_⟩
      rwa [List.append_assoc] at hrefused

/-- The rest is resolved, one entry after another, until one is refused. -/
lemma Halfway.foldlM_eq_error_iff (hresolver : Idempotent resolver) (ht : t.Acyclic)
    (h : Halfway resolver before rest t) (hnodup : (rest.map Prod.fst).Nodup) :
    (∃ e, rest.foldlM (fun working entry =>
      working.resolveEntry resolver entry.1 entry.2) t = .error e) ↔
        RefusesIn resolver before rest := by
  induction rest generalizing before t with
  | nil =>
      constructor
      · rintro ⟨e, he⟩
        cases he
      · rintro ⟨done, key, target, later, hnil, -⟩
        exact absurd hnil (by simp)
  | cons entry rest ih =>
      obtain ⟨key, target⟩ := entry
      rw [refusesIn_cons, ← h.targets_eq, List.foldlM_cons]
      cases hentry : t.resolveEntry resolver key target with
      | error e =>
          have hrefused := refused_of_resolveEntry hentry
          exact ⟨fun _ => Or.inl hrefused, fun _ => ⟨e, rfl⟩⟩
      | ok working =>
          have hrewrites := rewrites_of_resolveEntry hentry
          have hlet := hrewrites.not_refused ht (h.left List.mem_cons_self)
          obtain ⟨hfresh, hnodup⟩ := List.nodup_cons.mp hnodup
          rw [or_iff_right hlet]
          exact ih (ht.resolveEntry hentry) (h.step hresolver hfresh hrewrites) hnodup

/-- **A resolution fails** exactly if some entry is refused when it is its turn. -/
theorem resolve_eq_error_iff_refused (hresolver : Idempotent resolver) (ht : t.Acyclic) :
    (∃ e, t.resolve resolver = .error e) ↔ RefusesIn resolver [] t.targets.entries :=
  (Halfway.start resolver t).foldlM_eq_error_iff hresolver ht t.targets.names_nodup

/-! ### Contradictions -/

/-- Some entry resolves to the pair. -/
def Image (t : AliasTable) (resolver : Name → Option Name) (x y : Name) : Prop :=
  ∃ a n, t.Targets a n ∧ ResolvesTo resolver a n x y

/-- The pairs that the entries resolve to give an alias two targets, or close a circle. -/
def Contradictory (t : AliasTable) (resolver : Name → Option Name) : Prop :=
  (∃ x y z, t.Image resolver x y ∧ t.Image resolver x z ∧ z ≠ y) ∨
    ∃ x, TransGen (t.Image resolver) x x

/-- The tables have the same aliases with the same targets, in any order. -/
def SamePairs (t t' : AliasTable) : Prop := ∀ x y, t'.Targets x y ↔ t.Targets x y

/-- Only the order may be another one. -/
lemma samePairs_of_perm (h : t'.targets.entries.Perm t.targets.entries) : t.SamePairs t' :=
  fun x y => by rw [← mem_entries_iff, ← mem_entries_iff, h.mem_iff]

lemma SamePairs.acyclic (h : t.SamePairs t') (ht : t.Acyclic) : t'.Acyclic :=
  ht.mono fun a b => (h a b).mp

lemma SamePairs.image_eq (h : t.SamePairs t') : t'.Image resolver = t.Image resolver := by
  ext x y
  exact exists₂_congr fun a n => and_congr_left' (h a n)

lemma SamePairs.contradictory_iff (h : t.SamePairs t') :
    t'.Contradictory resolver ↔ t.Contradictory resolver := by
  rw [Contradictory, Contradictory, h.image_eq]

/-- What is resolved has one target for every alias and no circle. -/
lemma not_contradictory_of_resolve (hresolver : Idempotent resolver) (ht : t.Acyclic)
    (h : t.resolve resolver = .ok t') : ¬ t.Contradictory resolver := by
  have himage : t.Image resolver = t'.Targets := by
    ext x y
    exact (targets_of_resolve hresolver h).symm
  rw [Contradictory, himage]
  rintro (⟨x, y, z, hy, hz, hne⟩ | ⟨x, hcircle⟩)
  · exact hne (Option.some.inj (hz.symm.trans hy))
  · exact ht.resolve h x hcircle

/-! ### Entries that come too early -/

/-- One of the two names resolves to nothing, so that the entry is to go. -/
def Lost (resolver : Name → Option Name) (entry : Name × Name) : Prop :=
  resolved resolver entry.1 = none ∨ resolved resolver entry.2 = none

instance (resolver : Name → Option Name) (entry : Name × Name) : Decidable (Lost resolver entry) :=
  inferInstanceAs (Decidable (_ ∨ _))

lemma ResolvesTo.not_lost {x y : Name} (h : ResolvesTo resolver key target x y) :
    ¬ Lost resolver (key, target) := by
  obtain ⟨hkey, htarget, -⟩ := resolvesTo_iff.mp h
  simp [Lost, hkey, htarget]

/-- Some entry is resolved before a later one that is in its way, although what that one resolves to
is not. -/
inductive Premature (t : AliasTable) (resolver : Name → Option Name) : Prop
  /-- The alias of the pair has another target, and the pair itself or none when that is
  resolved. -/
  | target {before rest : List (Name × Name)} {key target x y z : Name}
      (hentries : t.targets.entries = before ++ (key, target) :: rest)
      (hpair : ResolvesTo resolver key target x y) (hlater : (x, z) ∈ rest) (hother : z ≠ y)
      (hsame : ∀ u v, ResolvesTo resolver x z u v → v = y)
  /-- The target of the pair leads to its alias by way of an entry that is to go. -/
  | chain {before rest : List (Name × Name)} {key target x y u v : Name}
      (hentries : t.targets.entries = before ++ (key, target) :: rest)
      (hpair : ResolvesTo resolver key target x y) (hlater : (u, v) ∈ rest)
      (hlost : Lost resolver (u, v))
      (hto : ReflTransGen (Midway resolver before ((key, target) :: rest)) y u)
      (hfrom : ReflTransGen (Midway resolver before ((key, target) :: rest)) v x)

/-- The entries have different aliases. -/
lemma ne_of_mem_rest (hentries : t.targets.entries = before ++ (key, target) :: rest) {x z : Name}
    (hmem : (x, z) ∈ rest) : x ≠ key := by
  have hnodup := t.targets.names_nodup
  rw [hentries, List.map_append, List.map_cons] at hnodup
  have hfresh := (List.nodup_cons.mp hnodup.of_append_right).1
  rintro rfl
  exact hfresh (List.mem_map.mpr ⟨_, hmem, rfl⟩)

lemma Premature.refusesIn (h : t.Premature resolver) :
    RefusesIn resolver [] t.targets.entries := by
  cases h with
  | @target before rest key target x y z hentries hpair hlater hother _ =>
      have hmoves : x ≠ key := ne_of_mem_rest hentries hlater
      exact ⟨before, key, target, rest, hentries, x, y, hpair,
        Or.inl ⟨hmoves, z, Or.inl (List.mem_cons_of_mem _ hlater), hother⟩⟩
  | @chain before rest key target x y u v hentries hpair hlater _ hto hfrom =>
      have hstep : Midway resolver before ((key, target) :: rest) u v :=
        Or.inl (List.mem_cons_of_mem _ hlater)
      exact ⟨before, key, target, rest, hentries, x, y, hpair,
        Or.inr (TransGen.trans_right hto (TransGen.head' hstep hfrom))⟩

/-- Along a chain in the middle of a resolution, either an entry is to go, or what the names resolve
to is a chain as well. -/
lemma lost_or_image_of_midway (hresolver : Idempotent resolver)
    (hentries : t.targets.entries = before ++ rest) {y y' c : Name}
    (hy : resolved resolver y = some y') (h : ReflTransGen (Midway resolver before rest) y c) :
    (∃ u v, (u, v) ∈ rest ∧ Lost resolver (u, v) ∧
      ReflTransGen (Midway resolver before rest) y u ∧
        ReflTransGen (Midway resolver before rest) v c) ∨
    ∃ c', resolved resolver c = some c' ∧ ReflTransGen (t.Image resolver) y' c' := by
  induction h with
  | refl => exact Or.inr ⟨y', hy, .refl⟩
  | @tail c d hpath hstep ih =>
      rcases ih with ⟨u, v, hmem, hlost, hto, hfrom⟩ | ⟨c', hc, hchain⟩
      · exact Or.inl ⟨u, v, hmem, hlost, hto, hfrom.tail hstep⟩
      · rcases hstep with hmem | ⟨a, n, hmem, hpair⟩
        · cases hd : resolved resolver d with
          | none => exact Or.inl ⟨c, d, hmem, Or.inr hd, hpath, .refl⟩
          | some d' =>
              refine Or.inr ⟨d', rfl, ?_⟩
              by_cases hsame : c' = d'
              · exact hsame ▸ hchain
              · have hleft : t.Targets c d :=
                  mem_entries_iff.mp (hentries ▸ List.mem_append_right _ hmem)
                exact hchain.tail ⟨c, d, hleft, resolvesTo_iff.mpr ⟨hc, hd, hsame⟩⟩
        · have hself := resolvesTo_iff.mp (hpair.self hresolver)
          obtain rfl : c = c' := Option.some.inj (hself.1.symm.trans hc)
          have hdone : t.Targets a n :=
            mem_entries_iff.mp (hentries ▸ List.mem_append_left _ hmem)
          exact Or.inr ⟨d, hself.2.1, hchain.tail ⟨a, n, hdone, hpair⟩⟩

/-- An entry is refused because of a contradiction, or because it comes too early. -/
lemma contradictory_or_premature (hresolver : Idempotent resolver)
    (hentries : t.targets.entries = before ++ (key, target) :: rest)
    (h : Refused resolver (Midway resolver before ((key, target) :: rest)) key target) :
    t.Contradictory resolver ∨ t.Premature resolver := by
  have hdone : ∀ {a n}, (a, n) ∈ before → t.Targets a n := fun hmem =>
    mem_entries_iff.mp (hentries ▸ List.mem_append_left _ hmem)
  have hleft : ∀ {a n}, (a, n) ∈ (key, target) :: rest → t.Targets a n := fun hmem =>
    mem_entries_iff.mp (hentries ▸ List.mem_append_right _ hmem)
  obtain ⟨x, y, hpair, ⟨hmoves, z, hz, hother⟩ | hcircle⟩ := h
  · have hxy : t.Image resolver x y := ⟨key, target, hleft List.mem_cons_self, hpair⟩
    rcases hz with hmem | ⟨a, n, hmem, hpair'⟩
    · have hlater : (x, z) ∈ rest :=
        (List.mem_cons.mp hmem).resolve_left fun heq => hmoves (congrArg Prod.fst heq)
      by_cases hsame : ∀ u v, ResolvesTo resolver x z u v → v = y
      · exact Or.inr (.target hentries hpair hlater hother hsame)
      · push Not at hsame
        obtain ⟨u, v, huv, hv⟩ := hsame
        -- the alias is an answer of the resolver, so it stays when its own entry is resolved
        obtain rfl : u = x := Option.some.inj (huv.key.symm.trans (hpair.self hresolver).key)
        exact Or.inl (Or.inl ⟨u, y, v, hxy, ⟨u, z, hleft hmem, huv⟩, hv⟩)
    · exact Or.inl (Or.inl ⟨x, y, z, hxy, ⟨a, n, hdone hmem, hpair'⟩, hother⟩)
  · have hxy : t.Image resolver x y := ⟨key, target, hleft List.mem_cons_self, hpair⟩
    have hself := resolvesTo_iff.mp (hpair.self hresolver)
    rcases lost_or_image_of_midway hresolver hentries hself.2.1 hcircle.to_reflTransGen with
      ⟨u, v, hmem, hlost, hto, hfrom⟩ | ⟨c, hc, hchain⟩
    · have hlater : (u, v) ∈ rest := by
        refine (List.mem_cons.mp hmem).resolve_left fun heq => ?_
        exact hpair.not_lost (heq ▸ hlost)
      exact Or.inr (.chain hentries hpair hlater hlost hto hfrom)
    · obtain rfl : c = x := Option.some.inj (hc.symm.trans hself.1)
      exact Or.inl (Or.inr ⟨c, TransGen.head' hxy hchain⟩)

/-- **The reasons for a failure**: the pairs that the entries resolve to contradict each other, or
an entry comes too early. -/
theorem resolve_eq_error_iff (hresolver : Idempotent resolver) (ht : t.Acyclic) :
    (∃ e, t.resolve resolver = .error e) ↔ t.Contradictory resolver ∨ t.Premature resolver := by
  constructor
  · intro h
    obtain ⟨before, key, target, rest, hentries, hrefused⟩ :=
      (resolve_eq_error_iff_refused hresolver ht).mp h
    exact contradictory_or_premature hresolver hentries hrefused
  · rintro (hcontradictory | hpremature)
    · cases h : t.resolve resolver with
      | error e => exact ⟨e, rfl⟩
      | ok t' => exact absurd hcontradictory (not_contradictory_of_resolve hresolver ht h)
    · exact (resolve_eq_error_iff_refused hresolver ht).mpr hpremature.refusesIn

/-! ### An order in which no entry comes too early -/

/-- First come the entries that are to go, and then those whose alias stays as it is. -/
def rank (resolver : Name → Option Name) (entry : Name × Name) : ℕ :=
  if Lost resolver entry then 0 else if resolver entry.1 = some entry.1 then 1 else 2

/-- An entry that comes too early comes before one of a lower rank. -/
lemma Premature.exists_rank_lt (hresolver : Idempotent resolver) (h : t.Premature resolver) :
    ∃ before entry rest later, t.targets.entries = before ++ entry :: rest ∧ later ∈ rest ∧
      rank resolver later < rank resolver entry := by
  cases h with
  | @target before rest key target x y z hentries hpair hlater hother hsame =>
      refine ⟨before, (key, target), rest, (x, z), hentries, hlater, ?_⟩
      have hmoves : x ≠ key := ne_of_mem_rest hentries hlater
      have hfirst : rank resolver (key, target) = 2 := by
        simp [rank, hpair.not_lost, hpair.key, hmoves]
      have hstays : resolver x = some x := (hpair.self hresolver).key
      rw [hfirst]
      by_cases hlost : Lost resolver (x, z) <;> simp [rank, hlost, hstays]
  | @chain before rest key target x y u v hentries hpair hlater hlost _ _ =>
      refine ⟨before, (key, target), rest, (u, v), hentries, hlater, ?_⟩
      by_cases hstays : resolver key = some key <;> simp [rank, hlost, hpair.not_lost, hstays]

/-- The table in the order of the ranks. -/
def ordered (t : AliasTable) (resolver : Name → Option Name) : AliasTable :=
  { t with
    targets := ⟨t.targets.entries.mergeSort fun e f => rank resolver e ≤ rank resolver f,
      ((List.mergeSort_perm ..).map Prod.fst).nodup_iff.mpr t.targets.names_nodup⟩ }

lemma samePairs_ordered (t : AliasTable) (resolver : Name → Option Name) :
    t.SamePairs (t.ordered resolver) :=
  samePairs_of_perm (List.mergeSort_perm ..)

lemma not_premature_ordered (hresolver : Idempotent resolver) :
    ¬ (t.ordered resolver).Premature resolver := by
  intro h
  obtain ⟨before, entry, rest, later, hentries, hlater, hlt⟩ := h.exists_rank_lt hresolver
  have hsorted : (t.ordered resolver).targets.entries.Pairwise
      fun e f => decide (rank resolver e ≤ rank resolver f) = true :=
    List.pairwise_mergeSort (fun _ _ _ => by simpa using Nat.le_trans)
      (fun e f => by simpa using Nat.le_total _ _) _
  rw [hentries] at hsorted
  have hle := (List.pairwise_cons.mp (List.pairwise_append.mp hsorted).2.1).1 later hlater
  exact absurd hlt (Nat.not_lt.mpr (of_decide_eq_true hle))

end AliasTable

/-! ### Registries and runs -/

variable {S : Setup} {α : Type}

lemma Registry.answer_resolveAliases (g : Registry S) (resolver : Name → Option Name) :
    (g.apply (.resolveAliases resolver)).answer = (g.aliases.resolve resolver).map fun _ => () := by
  simp only [apply, resolveAliases]
  cases g.aliases.resolve resolver <;> rfl

/-- A resolution fails for one of the two reasons. -/
lemma Registry.resolveAliases_ne_ok_iff {g : Registry S} (hg : g.aliases.Acyclic)
    {resolver : Name → Option Name} (hresolver : AliasTable.Idempotent resolver) :
    (g.apply (.resolveAliases resolver)).answer ≠ .ok () ↔
      g.aliases.Contradictory resolver ∨ g.aliases.Premature resolver := by
  rw [← AliasTable.resolve_eq_error_iff hresolver hg, answer_resolveAliases]
  cases g.aliases.resolve resolver with
  | ok aliases => simp [Except.map]
  | error e => simp [Except.map]

/-- What has been resolved has the pairs that the entries resolve to. -/
lemma Registry.targets_resolveAliases {g : Registry S} {resolver : Name → Option Name}
    (hresolver : AliasTable.Idempotent resolver)
    (h : (g.apply (.resolveAliases resolver)).answer = .ok ()) :
    (g.apply (.resolveAliases resolver)).registry.aliases.Targets = g.aliases.Image resolver := by
  obtain ⟨aliases, hresolve, hregistry⟩ := Registry.resolveAliases_eq_ok h
  ext x y
  rw [hregistry]
  exact AliasTable.targets_of_resolve hresolver hresolve

/-- **When a resolution of all aliases fails**, at any moment of a run that begins with a new
registry, for a resolver that leaves its own answers alone: exactly if the pairs that the entries
resolve to contradict each other, or an entry comes too early. The latter alone depends on the order
of the entries. Of registries with the same pairs, when the resolution of one succeeds, that of
another one fails only if an entry comes too early there, and if it succeeds, the result has the
same pairs. The resolution fails for every order of the pairs exactly if there is a
contradiction. -/
theorem resolution_fails_iff (caller : Caller S) (r : S.Index) (allowed : Bool) (s : Script S α)
    (w : World S) (k : ℕ) {resolver : Name → Option Name}
    (hresolver : AliasTable.Idempotent resolver) :
    let g := (run caller k
      (Config.start s (w.setRegistry r (Registry.withOverriding allowed)))).world.registry r
    ((g.apply (.resolveAliases resolver)).answer ≠ .ok () ↔
      g.aliases.Contradictory resolver ∨ g.aliases.Premature resolver) ∧
    (∀ g' : Registry S, g.aliases.SamePairs g'.aliases →
      (g.apply (.resolveAliases resolver)).answer = .ok () →
      ((g'.apply (.resolveAliases resolver)).answer ≠ .ok () ↔ g'.aliases.Premature resolver) ∧
      ((g'.apply (.resolveAliases resolver)).answer = .ok () →
        (g.apply (.resolveAliases resolver)).registry.aliases.SamePairs
          (g'.apply (.resolveAliases resolver)).registry.aliases)) ∧
    (g.aliases.Contradictory resolver ↔ ∀ g' : Registry S, g.aliases.SamePairs g'.aliases →
      (g'.apply (.resolveAliases resolver)).answer ≠ .ok ()) := by
  intro g
  have hg : g.aliases.Acyclic := acyclic_aliases_of_run r allowed s w k
  have hsame : ∀ g' : Registry S, g.aliases.SamePairs g'.aliases →
      ((g'.apply (.resolveAliases resolver)).answer ≠ .ok () ↔
        g.aliases.Contradictory resolver ∨ g'.aliases.Premature resolver) := by
    intro g' hpairs
    rw [Registry.resolveAliases_ne_ok_iff (hpairs.acyclic hg) hresolver, hpairs.contradictory_iff]
  refine ⟨Registry.resolveAliases_ne_ok_iff hg hresolver, fun g' hpairs hok => ⟨?_, fun hok' => ?_⟩,
    fun hcontradictory g' hpairs => (hsame g' hpairs).mpr (Or.inl hcontradictory), fun hall => ?_⟩
  · have hconsistent : ¬ g.aliases.Contradictory resolver := fun h =>
      (Registry.resolveAliases_ne_ok_iff hg hresolver).mpr (Or.inl h) hok
    rw [hsame g' hpairs, or_iff_right hconsistent]
  · intro x y
    rw [Registry.targets_resolveAliases hresolver hok', hpairs.image_eq,
      Registry.targets_resolveAliases hresolver hok]
  · have hordered := hall { g with aliases := g.aliases.ordered resolver }
      (g.aliases.samePairs_ordered resolver)
    exact ((hsame _ (g.aliases.samePairs_ordered resolver)).mp hordered).resolve_right
      (AliasTable.not_premature_ordered hresolver)

/-! ### A conflict and a circle that depend on the order -/

/-- Registers pairs of a name and an alias. -/
def naming : List (Name × Name) → Script branchingSetup Unit
  | [] => .done ()
  | (name, key) :: rest => .call branchingIndex (.registerAlias name key) fun _ => naming rest

/-- The registry after pairs of a name and an alias were registered. -/
def named (pairs : List (Name × Name)) : Registry branchingSetup :=
  (run branchingCaller pairs.length (Config.start (naming pairs)
    (branchingWorld.setRegistry branchingIndex (Registry.withOverriding true)))).world.registry
      branchingIndex

/-- Both aliases are to stand for the same name. One is a placeholder for the other, and the target
of that is a placeholder as well. -/
def colliding : List (Name × Name) := [("dataSource", "@nickname"), ("@db", "ds")]

/-- An alias is a placeholder for a name that leads to its target, by way of a placeholder for
nothing. -/
def chained : List (Name × Name) :=
  [("dataSource", "@nickname"), ("@gone", "dataSource"), ("ds", "@gone")]

/-- The alias that moves first meets the other one with its target as it was. In the reverse order,
the two have the same target by then. -/
theorem resolution_conflict_premature :
    AliasTable.Idempotent placeholder ∧
    ((named colliding).apply (.resolveAliases placeholder)).answer =
      .error (.aliasConflict "ds" "dataSource" "@db") ∧
    ¬ (named colliding).aliases.Contradictory placeholder ∧
    (named colliding).aliases.SamePairs (named colliding.reverse).aliases ∧
    ((named colliding.reverse).apply (.resolveAliases placeholder)).answer = .ok () := by
  have hpairs : (named colliding).aliases.SamePairs (named colliding.reverse).aliases :=
    AliasTable.samePairs_of_perm (by decide +kernel)
  have hok : ((named colliding.reverse).apply (.resolveAliases placeholder)).answer = .ok () := rfl
  have hacyclic : (named colliding.reverse).aliases.Acyclic :=
    acyclic_aliases_of_run branchingIndex true _ branchingWorld _
  have hconsistent : ¬ (named colliding.reverse).aliases.Contradictory placeholder := fun h =>
    (Registry.resolveAliases_ne_ok_iff hacyclic idempotent_placeholder).mpr (Or.inl h) hok
  exact ⟨idempotent_placeholder, rfl, hpairs.contradictory_iff.not.mp hconsistent, hpairs, hok⟩

/-- The alias that moves first closes a circle with the entries of the placeholder. In the reverse
order, these are gone by then. -/
theorem resolution_fails_iff_chained :
    AliasTable.Idempotent placeholder ∧
    ((named chained).apply (.resolveAliases placeholder)).answer =
      .error (.circularAlias "ds" "dataSource") ∧
    ¬ (named chained).aliases.Contradictory placeholder ∧
    (named chained).aliases.Premature placeholder ∧
    ((named chained.reverse).apply (.resolveAliases placeholder)).answer = .ok () ∧
    ¬ (named chained.reverse).aliases.Premature placeholder := by
  have hpairs : (named chained.reverse).aliases.SamePairs (named chained).aliases :=
    AliasTable.samePairs_of_perm (by decide +kernel)
  have hok : ((named chained.reverse).apply (.resolveAliases placeholder)).answer = .ok () := rfl
  have herror : ((named chained).apply (.resolveAliases placeholder)).answer =
      .error (.circularAlias "ds" "dataSource") := rfl
  have hfails : ((named chained).apply (.resolveAliases placeholder)).answer ≠ .ok () := by
    rw [herror]
    exact nofun
  obtain ⟨hreason, horder, -⟩ := resolution_fails_iff branchingCaller branchingIndex true
    (naming chained.reverse) branchingWorld 3 idempotent_placeholder
  have hlet : ¬ ((named chained.reverse).aliases.Contradictory placeholder ∨
      (named chained.reverse).aliases.Premature placeholder) := fun h => hreason.mpr h hok
  obtain ⟨hconsistent, htimely⟩ := not_or.mp hlet
  exact ⟨idempotent_placeholder, herror, hpairs.contradictory_iff.not.mpr hconsistent,
    (horder _ hpairs hok).1.mp hfails, hok, htimely⟩

end InstanceRegistry
