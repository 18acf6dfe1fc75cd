import InstanceRegistry.Proofs.Alias.Conflicts
import InstanceRegistry.Proofs.Alias.Subtrees
import InstanceRegistry.Proofs.Run.Calls

/-!
Aliases that are registered one after another, none of them twice. Each registration is checked
against the pairs that came before it. Whether all of them get past the check depends on the pairs
only: they do so exactly if all pairs together close no circle.

* `Independent`: pairs of a name and an alias in which no alias occurs twice;
* `AliasTable.registerAll`, `AliasTable.Joined`: the registrations one after another, and the
  targets of the table together with the pairs;
* `AliasTable.registerAll_cases`: how the registrations end;
* `AliasTable.SamePairs.canonical_eq`, `AliasTable.SamePairs.hasAlias_eq`: tables with the same
  targets have the same answers;
* `Script.registerAliases`, `exists_ends_registerAliases`: the calls in a run;
* `registerAliases_order`: the order of the registrations does not matter;
* `registerAliases_order_chain`: a chain of aliases from either end.
-/

namespace InstanceRegistry

open Relation (ReflTransGen TransGen)

/-! ### Pairs of a name and an alias -/

/-- Pairs of a name and an alias that can be registered one by one: no text is blank, no name is its
own alias, and no alias occurs twice. -/
structure Independent (pairs : List (Name × Name)) : Prop where
  name : ∀ pair ∈ pairs, isBlank pair.1 = false
  key : ∀ pair ∈ pairs, isBlank pair.2 = false
  ne : ∀ pair ∈ pairs, pair.2 ≠ pair.1
  nodup : (pairs.map Prod.snd).Nodup

namespace Independent

variable {pairs pairs' : List (Name × Name)} {pair : Name × Name}

lemma tail (h : Independent (pair :: pairs)) : Independent pairs where
  name other hother := h.name other (List.mem_cons_of_mem pair hother)
  key other hother := h.key other (List.mem_cons_of_mem pair hother)
  ne other hother := h.ne other (List.mem_cons_of_mem pair hother)
  nodup := (List.nodup_cons.mp h.nodup).2

lemma perm (h : Independent pairs) (hperm : pairs'.Perm pairs) : Independent pairs' where
  name other hother := h.name other (hperm.mem_iff.mp hother)
  key other hother := h.key other (hperm.mem_iff.mp hother)
  ne other hother := h.ne other (hperm.mem_iff.mp hother)
  nodup := (hperm.map Prod.snd).nodup_iff.mpr h.nodup

end Independent

namespace AliasTable

variable {t t' : AliasTable} {name key a b : Name} {pairs pairs' : List (Name × Name)}

/-! ### Registrations one after another -/

/-- Registers pairs of a name and an alias one after another, up to the first that is refused. -/
def registerAll (t : AliasTable) : List (Name × Name) → Except Error AliasTable
  | [] => .ok t
  | (name, key) :: rest =>
    match t.register name key with
    | .ok (next, _) => next.registerAll rest
    | .error e => .error e

/-- The alias `a` has the target `b` in the table, or the two are among the pairs. -/
def Joined (t : AliasTable) (pairs : List (Name × Name)) (a b : Name) : Prop :=
  t.Targets a b ∨ (b, a) ∈ pairs

/-- A pair that is put into the table is one pair less to come. -/
lemma joined_put (hfresh : t.isAlias key = false) :
    Joined { t with targets := t.targets.insert key name } pairs =
      t.Joined ((name, key) :: pairs) := by
  ext a b
  have hold : t.Targets a b → a ≠ key := by
    rintro htarget rfl
    exact absurd (htarget.isAlias.symm.trans hfresh) (by simp)
  have hpair : (b, a) = (name, key) ↔ a = key ∧ b = name := by
    rw [Prod.mk.injEq, and_comm]
  rw [Joined, Joined, targets_put, List.mem_cons, hpair]
  tauto

/-- A new alias gets its target, unless the name leads to it. -/
lemma register_of_fresh (hname : isBlank name = false) (hkey : isBlank key = false)
    (hne : key ≠ name) (hfresh : t.isAlias key = false) :
    (ReflTransGen t.Targets name key ∧ ∃ e, t.register name key = .error e) ∨
    (t.hasAlias key name = false ∧ ∃ registration, t.register name key =
      .ok ({ t with targets := t.targets.insert key name }, registration)) := by
  have hnew : ¬ t.Targets key name := fun htarget =>
    absurd (htarget.isAlias.symm.trans hfresh) (by simp)
  rcases register_cases hname hkey hne hnew with
    ⟨⟨halias, -⟩, -⟩ | ⟨-, hleads, hregister⟩ | ⟨-, -, hcheck, registration, hregister⟩
  · exact absurd (halias.symm.trans hfresh) (by simp)
  · exact Or.inl ⟨hleads, _, hregister⟩
  · exact Or.inr ⟨hcheck, registration, hregister⟩

/-- **How the registrations of new aliases end**: with all pairs in the table and without a circle,
or with a refusal if the pairs close one. -/
theorem registerAll_cases (ht : t.Acyclic) (hpairs : Independent pairs)
    (hfresh : ∀ pair ∈ pairs, t.isAlias pair.2 = false) :
    (∃ t', t.registerAll pairs = .ok t' ∧ t'.Acyclic ∧ t'.Targets = t.Joined pairs) ∨
    ((∃ e, t.registerAll pairs = .error e) ∧ ∃ a, TransGen (t.Joined pairs) a a) := by
  induction pairs generalizing t with
  | nil =>
      refine Or.inl ⟨t, rfl, ht, ?_⟩
      ext a b
      exact (or_iff_left List.not_mem_nil).symm
  | cons pair rest ih =>
      obtain ⟨name, key⟩ := pair
      have hmem : (name, key) ∈ (name, key) :: rest := List.mem_cons_self
      have hne : key ≠ name := hpairs.ne _ hmem
      have hkey : t.isAlias key = false := hfresh _ hmem
      rcases register_of_fresh (hpairs.name _ hmem) (hpairs.key _ hmem) hne hkey with
        ⟨hleads, e, hregister⟩ | ⟨hcheck, registration, hregister⟩
      · -- the pair closes a circle with what is in the table already
        refine Or.inr ⟨⟨e, by simp only [registerAll, hregister]⟩, key, ?_⟩
        have hback : ReflTransGen (t.Joined ((name, key) :: rest)) name key :=
          ReflTransGen.mono (fun _ _ => Or.inl) _ _ hleads
        exact TransGen.head' (Or.inr hmem) hback
      · have hunseen : key ∉ rest.map Prod.snd := (List.nodup_cons.mp hpairs.nodup).1
        have hrest : ∀ pair ∈ rest,
            isAlias { t with targets := t.targets.insert key name } pair.2 = false := by
          intro pair hpair
          have hother : pair.2 ≠ key := fun heq => hunseen (heq ▸ List.mem_map_of_mem hpair)
          have hold := hfresh pair (List.mem_cons_of_mem _ hpair)
          rw [Bool.eq_false_iff, ne_eq, isAlias_iff] at hold ⊢
          rintro ⟨target, htarget⟩
          exact hold ⟨target, (t.agreeOff_put key name _ hother _).mp htarget⟩
        have hnext := ih (ht.insert hne hcheck) hpairs.tail hrest
        rw [joined_put hkey] at hnext
        simpa only [registerAll, hregister] using hnext

/-! ### Tables with the same targets -/

namespace SamePairs

lemma hasAlias_eq (h : t.SamePairs t') (name key : Name) :
    t'.hasAlias name key = t.hasAlias name key := by
  have htargets : t'.Targets = t.Targets := by
    ext a b
    exact h a b
  rw [Bool.eq_iff_iff, hasAlias_iff, hasAlias_iff, htargets]

lemma isAlias_eq (h : t.SamePairs t') (name : Name) : t'.isAlias name = t.isAlias name := by
  rw [Bool.eq_iff_iff, isAlias_iff, isAlias_iff]
  exact exists_congr fun b => h name b

lemma canonical_eq (h : t.SamePairs t') (ht : t.Acyclic) (name : Name) :
    t'.canonical name = t.canonical name := by
  obtain ⟨hchain, hend⟩ := ht.reflTransGen_canonical name
  refine (h.acyclic ht).canonical_eq ?_ ((h.isAlias_eq _).trans hend)
  exact ReflTransGen.mono (fun a b => (h a b).mpr) _ _ hchain

end SamePairs

/-- A table without aliases has no circle, and what is joined to it is the pairs. -/
lemma joined_of_empty (h : t.targets = ∅) : t.Joined pairs a b ↔ (b, a) ∈ pairs := by
  refine or_iff_right ?_
  rw [Targets, h]
  simp

lemma acyclic_of_empty (h : t.targets = ∅) : t.Acyclic := by
  intro a hcycle
  obtain ⟨b, hstep, -⟩ := TransGen.head'_iff.mp hcycle
  rw [Targets, h] at hstep
  cases hstep

lemma isAlias_of_empty (h : t.targets = ∅) (name : Name) : t.isAlias name = false := by
  rw [isAlias, h]
  rfl

/-- **Any order is as good as another one**: on tables without aliases, the registrations in one
order succeed if those in another order do, and then the tables have the same targets. -/
theorem registerAll_perm (h : t.targets = ∅) (h' : t'.targets = ∅) (hpairs : Independent pairs)
    (hperm : pairs'.Perm pairs) {t₁ : AliasTable} (hall : t.registerAll pairs = .ok t₁) :
    ∃ t₂, t'.registerAll pairs' = .ok t₂ ∧ t₁.Acyclic ∧ t₁.SamePairs t₂ ∧
      ∀ a b, t₁.Targets a b ↔ (b, a) ∈ pairs := by
  have hjoined : t'.Joined pairs' = t.Joined pairs := by
    ext a b
    rw [joined_of_empty h', joined_of_empty h, hperm.mem_iff]
  rcases registerAll_cases (acyclic_of_empty h) hpairs (fun _ _ => isAlias_of_empty h _) with
    ⟨t₁', hok, hacyclic, htargets⟩ | ⟨⟨e, herror⟩, -⟩
  · obtain rfl : t₁' = t₁ := Except.ok.inj (hok.symm.trans hall)
    rcases registerAll_cases (acyclic_of_empty h') (hpairs.perm hperm)
      (fun _ _ => isAlias_of_empty h' _) with ⟨t₂, hok', -, htargets'⟩ | ⟨-, a, hcycle⟩
    · refine ⟨t₂, hok', hacyclic, fun a b => ?_, fun a b => ?_⟩
      · rw [htargets', htargets, hjoined]
      · rw [htargets, joined_of_empty h]
    · rw [hjoined, ← htargets] at hcycle
      exact absurd hcycle (hacyclic a)
  · exact absurd (herror.symm.trans hall) (by simp)

end AliasTable

/-! ### Runs -/

variable {S : Setup}

/-- Registers pairs of a name and an alias one after another, up to the first that is refused. -/
def Script.registerAliases (r : S.Index) : List (Name × Name) → Script S (Except Error Unit)
  | [] => .done (.ok ())
  | (name, key) :: rest =>
    .call r (.registerAlias name key) fun
      | .ok () => registerAliases r rest
      | .error e => .done (.error e)

lemma Registry.registerAlias_eq_of_ok {g : Registry S} {name key : Name} {aliases : AliasTable}
    {registration : Registration} (h : g.aliases.register name key = .ok (aliases, registration)) :
    (g.apply (.registerAlias name key)).answer = .ok () ∧
      (g.apply (.registerAlias name key)).registry = { g with aliases } := by
  simp only [apply, registerAlias, h, and_self]

variable {α : Type} {caller : Caller S} {r : S.Index} {view : Entry S → Option α}

/-- The registrations in a run are those in the table, if the observer keeps off. -/
theorem exists_ends_registerAliases (pairs : List (Name × Name)) (w : World S)
    (h : QuietlyObserved caller r view (w.registry r)) :
    (∀ t, (w.registry r).aliases.registerAll pairs = .ok t →
      ∃ w', Ends caller (Script.registerAliases r pairs) w (.ok ()) w' ∧
        (w'.registry r).aliases = t) ∧
    (∀ e, (w.registry r).aliases.registerAll pairs = .error e →
      ∃ w', Ends caller (Script.registerAliases r pairs) w (.error e) w') := by
  induction pairs generalizing w with
  | nil =>
      refine ⟨fun t ht => ⟨w, Ends.done _ w, Except.ok.inj ht⟩, fun e he => ?_⟩
      cases he
  | cons pair rest ih =>
      obtain ⟨name, key⟩ := pair
      cases hregister : (w.registry r).aliases.register name key with
      | error e =>
          have hanswer : ((w.registry r).apply (.registerAlias name key)).answer = .error e := by
            simp only [Registry.apply, Registry.registerAlias, hregister]
          have hsame := Registry.registerAlias_eq_of_error hanswer
          obtain ⟨w', hends, -⟩ := exists_ends_update (u := .registerAlias name key) (w := w)
            (by rw [hsame]; exact h)
          rw [hanswer] at hends
          simp only [AliasTable.registerAll, hregister]
          refine ⟨fun t ht => ?_, fun e' he => ?_⟩
          · cases ht
          · obtain rfl := Except.error.inj he
            exact ⟨w', hends.call (Ends.done _ w')⟩
      | ok result =>
          obtain ⟨aliases, registration⟩ := result
          obtain ⟨hanswer, hregistry⟩ := Registry.registerAlias_eq_of_ok hregister
          obtain ⟨w₁, hends, hw₁⟩ := exists_ends_update (u := .registerAlias name key) (w := w)
            (by rw [hregistry]; exact h)
          rw [hanswer] at hends
          have hr : w₁.registry r = { w.registry r with aliases } := hw₁.registry.trans hregistry
          have hrest := ih w₁ (by rw [hr]; exact h)
          rw [hr] at hrest
          simp only [AliasTable.registerAll, hregister]
          refine ⟨fun t ht => ?_, fun e he => ?_⟩
          · obtain ⟨w', hends', hw'⟩ := hrest.1 t ht
            exact ⟨w', hends.call hends', hw'⟩
          · obtain ⟨w', hends'⟩ := hrest.2 e he
            exact ⟨w', hends.call hends'⟩

/-- If the registrations in a run succeed, then those in the table do. -/
lemma registerAll_of_ends {pairs : List (Name × Name)} {w w' : World S}
    (h : QuietlyObserved caller r view (w.registry r))
    (hends : Ends caller (Script.registerAliases r pairs) w (.ok ()) w') :
    (w.registry r).aliases.registerAll pairs = .ok (w'.registry r).aliases := by
  obtain ⟨hok, herror⟩ := exists_ends_registerAliases pairs w h
  cases hall : (w.registry r).aliases.registerAll pairs with
  | ok t =>
      obtain ⟨w₁, hends₁, haliases⟩ := hok t hall
      obtain ⟨-, rfl⟩ := hends₁.unique hends
      rw [haliases]
  | error e =>
      obtain ⟨w₁, hends₁⟩ := herror e hall
      exact absurd (hends₁.unique hends).1 (by simp)

/-- **The order of independent registrations does not matter**: on a registry without aliases, with
or without the permission to change the targets of aliases, let the registrations of some pairs of a
name and an alias succeed in one order, where no text is blank, no name is its own alias and no
alias occurs twice. Then they succeed in any other order on any other registry without aliases. In
both the aliases have just these targets, and the canonical names, the aliases and the aliases of
each name are the same. -/
theorem registerAliases_order {pairs pairs' : List (Name × Name)} (hpairs : Independent pairs)
    (hperm : pairs'.Perm pairs) {w₁ w₂ w₁' : World S}
    (hobs₁ : QuietlyObserved caller r Entry.unseen (w₁.registry r))
    (hobs₂ : QuietlyObserved caller r Entry.unseen (w₂.registry r))
    (hempty₁ : (w₁.registry r).aliases.targets = ∅)
    (hempty₂ : (w₂.registry r).aliases.targets = ∅)
    (hends : Ends caller (Script.registerAliases r pairs) w₁ (.ok ()) w₁') :
    ∃ w₂', Ends caller (Script.registerAliases r pairs') w₂ (.ok ()) w₂' ∧
      (∀ key name, (w₁'.registry r).aliases.Targets key name ↔ (name, key) ∈ pairs) ∧
      (∀ key name, (w₂'.registry r).aliases.Targets key name ↔ (name, key) ∈ pairs) ∧
      (∀ name, (w₂'.registry r).canonical name = (w₁'.registry r).canonical name) ∧
      (∀ name, (w₂'.registry r).aliases.isAlias name = (w₁'.registry r).aliases.isAlias name) ∧
      ∀ name key, (w₂'.registry r).aliases.hasAlias name key =
        (w₁'.registry r).aliases.hasAlias name key := by
  obtain ⟨t₂, hall, hacyclic, hsame, htargets⟩ := AliasTable.registerAll_perm hempty₁ hempty₂
    hpairs hperm (registerAll_of_ends hobs₁ hends)
  obtain ⟨w₂', hends₂, rfl⟩ := (exists_ends_registerAliases pairs' w₂ hobs₂).1 t₂ hall
  exact ⟨w₂', hends₂, htargets, fun key name => (hsame key name).trans (htargets key name),
    hsame.canonical_eq hacyclic, hsame.isAlias_eq, hsame.hasAlias_eq⟩

/-! ### A chain of aliases -/

/-- A chain from the server up, and one more alias of the server. -/
def chainPairs : List (Name × Name) :=
  [("server", "web"), ("web", "www"), ("www", "home"), ("server", "site")]

/-- The world at the end of the run in which the chain is registered. -/
def chainWorld : World branchingSetup :=
  (run branchingCaller 5 (Config.start (Script.registerAliases branchingIndex chainPairs)
    branchingWorld)).world

/-- The chain is registered from its other end as well, on a registry that does not let an alias
change its target. -/
theorem registerAliases_order_chain :
    Independent chainPairs ∧ chainPairs.reverse.Perm chainPairs ∧
    Ends branchingCaller (Script.registerAliases branchingIndex chainPairs) branchingWorld
      (.ok ()) chainWorld ∧
    ∃ w', Ends branchingCaller (Script.registerAliases branchingIndex chainPairs.reverse)
        (branchingWorld.setRegistry branchingIndex (Registry.withOverriding false)) (.ok ()) w' ∧
      (w'.registry branchingIndex).canonical "home" =
        (chainWorld.registry branchingIndex).canonical "home" ∧
      (chainWorld.registry branchingIndex).canonical "home" = "server" := by
  have hpairs : Independent chainPairs :=
    ⟨by decide +kernel, by decide +kernel, by decide, by decide⟩
  have hends : Ends branchingCaller (Script.registerAliases branchingIndex chainPairs)
      branchingWorld (.ok ()) chainWorld := Ends.of_result? rfl
  have hperm : chainPairs.reverse.Perm chainPairs := List.reverse_perm _
  have hobs : ∀ g : Registry branchingSetup,
      QuietlyObserved branchingCaller branchingIndex Entry.unseen g := fun _ o => o.elim
  have hempty : ((branchingWorld.setRegistry branchingIndex
      (Registry.withOverriding false)).registry branchingIndex).aliases.targets = ∅ := rfl
  obtain ⟨w', hends', -, -, hcanonical, -⟩ :=
    registerAliases_order hpairs hperm (hobs _) (hobs _) rfl hempty hends
  exact ⟨hpairs, hperm, hends, w', hends', hcanonical "home", by decide +kernel⟩

end InstanceRegistry
