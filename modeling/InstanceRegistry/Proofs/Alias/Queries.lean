import InstanceRegistry.Proofs.Alias.Acyclic

/-!
What the queries about aliases have to do with each other. One follows the targets forwards from an
alias, and two search them backwards from a name: one for a single alias, and one for all of them.

* `AliasTable.mem_aliasesOf_iff`, `AliasTable.nodup_aliasesOf`: all aliases of a name, each once;
* `AliasTable.Hops.eq_of_not_isAlias`: a chain has one end;
* `AliasTable.Acyclic.canonical_eq_iff`: the aliases with a given canonical name;
* `alias_queries_agree`: the three queries at every moment of a run;
* `alias_queries_agree_branching`: a name with aliases of aliases.
-/

namespace InstanceRegistry

open Relation (TransGen)

namespace AliasTable

variable {t : AliasTable} {name key a b : Name}

/-! ### Against the targets -/

lemma nodup_directAliases (t : AliasTable) (name : Name) : (t.directAliases name).Nodup :=
  t.targets.names_nodup.sublist (List.filter_sublist.map Prod.fst)

/-- **The search for all aliases is exact**: it collects the aliases whose chains come by the
name. -/
theorem mem_aliasesOf_iff : key ∈ t.aliasesOf name ↔ TransGen t.Targets key name := by
  have hnext : ∀ a, ∀ b ∈ t.directAliases a, b ∈ t.targets.names.toFinset := by
    intro a b hb
    have halias := (mem_directAliases.mp hb).isAlias
    rw [isAlias, decide_eq_true_iff] at halias
    exact List.mem_toFinset.mpr halias
  have hbound : t.targets.names.toFinset.card + 1 ≤ t.size + 1 := by
    have hnames := List.toFinset_card_le t.targets.names
    rw [NameMap.length_names] at hnames
    exact Nat.succ_le_succ hnames
  have hswap : Search.Edge t.directAliases = Function.swap t.Targets := by
    ext a b
    exact edge_directAliases
  rw [aliasesOf, Search.mem_collect_iff hnext t.nodup_directAliases hbound, hswap,
    Relation.transGen_swap]

lemma nodup_aliasesOf (t : AliasTable) (name : Name) : (t.aliasesOf name).Nodup :=
  Search.nodup_collect t.nodup_directAliases List.nodup_nil

/-! ### Along the targets -/

/-- A chain that ends with a name that is no alias has no other such end. -/
lemma Hops.eq_of_not_isAlias {m n : ℕ} {c : Name} (h : t.Hops m a b) (hb : t.isAlias b = false)
    (h' : t.Hops n a c) (hc : t.isAlias c = false) : b = c := by
  induction h generalizing n with
  | zero a =>
      cases h' with
      | zero => rfl
      | succ hstep rest => exact absurd (hstep.isAlias.symm.trans hb) (by simp)
  | succ hstep rest ih =>
      cases h' with
      | zero => exact absurd (hstep.isAlias.symm.trans hc) (by simp)
      | succ hstep' rest' =>
          obtain rfl := Option.some.inj (hstep.symm.trans hstep')
          exact ih hb rest'

/-- The aliases with a canonical name are those that lead to it. -/
lemma Acyclic.canonical_eq_iff (ht : t.Acyclic) (hname : t.isAlias name = false) :
    t.isAlias key = true ∧ t.canonical key = name ↔ TransGen t.Targets key name := by
  obtain ⟨m, -, hcanonical, hend⟩ := ht.exists_hops_canonical key
  rw [transGen_iff_exists_hops]
  constructor
  · rintro ⟨hkey, hends⟩
    rw [hends] at hcanonical
    refine ⟨m, Nat.pos_of_ne_zero fun hm => ?_, hcanonical⟩
    subst hm
    cases hcanonical
    exact absurd (hkey.symm.trans hname) (by simp)
  · rintro ⟨n, hpos, hhops⟩
    refine ⟨?_, hcanonical.eq_of_not_isAlias hend hhops hname⟩
    cases hhops with
    | zero => exact absurd hpos (Nat.lt_irrefl 0)
    | succ hstep rest => exact hstep.isAlias

end AliasTable

/-! ### Runs -/

variable {S : Setup} {α : Type} (caller : Caller S)

/-- **The queries about aliases agree** at every moment of a run that begins with a new registry:
that a name has an alias, that the alias is among all aliases of the name, and that the chain of
targets from the alias comes by the name after one hop or more. No alias of a name is listed twice,
and those of a name that is no alias are the ones with that canonical name. -/
theorem alias_queries_agree (r : S.Index) (allowed : Bool) (s : Script S α) (w : World S) (k : ℕ)
    (name key : Name) :
    let table := ((run caller k (Config.start s
      (w.setRegistry r (Registry.withOverriding allowed)))).world.registry r).aliases
    (table.hasAlias name key = true ↔ key ∈ table.aliasesOf name) ∧
      (key ∈ table.aliasesOf name ↔ ∃ hops, 0 < hops ∧ table.Hops hops key name) ∧
      (table.aliasesOf name).Nodup ∧
      (table.isAlias name = false →
        (key ∈ table.aliasesOf name ↔ table.isAlias key = true ∧ table.canonical key = name)) := by
  intro table
  have hacyclic : table.Acyclic := acyclic_aliases_of_run r allowed s w k
  refine ⟨?_, ?_, table.nodup_aliasesOf name, fun hname => ?_⟩
  · rw [AliasTable.hasAlias_iff, AliasTable.mem_aliasesOf_iff]
  · rw [AliasTable.mem_aliasesOf_iff, AliasTable.transGen_iff_exists_hops]
  · rw [AliasTable.mem_aliasesOf_iff, hacyclic.canonical_eq_iff hname]

/-! ### A name with aliases of aliases -/

/-- One registry, and no code of the callers but scripts. -/
def branchingSetup : Setup := ⟨.basic, 1, Empty, Empty, Empty, Unit, Empty⟩

/-- The number of the registry. -/
def branchingIndex : branchingSetup.Index := Fin.mk 0 Nat.one_pos

/-- There is no code of the callers to run. -/
def branchingCaller : Caller branchingSetup where
  factory f := f.elim
  disposer d := d.elim
  observer o _ := o.elim

/-- A new registry as the only one of a world. -/
def branchingWorld : World branchingSetup := ⟨#v[{}], (), 0, []⟩

/-- The server gets two aliases, and each of them gets one; then one of these two moves over to the
alias of the other one. -/
def branching : Script branchingSetup (Except Error Unit) :=
  .call branchingIndex (.registerAlias "server" "web") fun _ =>
    .call branchingIndex (.registerAlias "server" "site") fun _ =>
      .call branchingIndex (.registerAlias "web" "www") fun _ =>
        .call branchingIndex (.registerAlias "site" "home") fun _ =>
          Script.update branchingIndex (.registerAlias "www" "home")

/-- The aliases at the end of the run of the script. -/
def branchingTable : AliasTable :=
  ((run branchingCaller 5 (Config.start branching
    (branchingWorld.setRegistry branchingIndex (Registry.withOverriding true)))).world.registry
      branchingIndex).aliases

/-- The server is the canonical name of its aliases, of those that are two and three hops away as
well. -/
theorem alias_queries_agree_branching :
    branchingTable.isAlias "server" = false ∧
    branchingTable.aliasesOf "server" = ["web", "site", "www", "home"] ∧
    branchingTable.hasAlias "server" "home" = true ∧
    (∃ hops, 0 < hops ∧ branchingTable.Hops hops "home" "server") ∧
    (branchingTable.isAlias "home" = true ∧ branchingTable.canonical "home" = "server") := by
  have hserver : branchingTable.isAlias "server" = false := by decide +kernel
  have haliases : branchingTable.aliasesOf "server" = ["web", "site", "www", "home"] := by
    decide +kernel
  have hhome : "home" ∈ branchingTable.aliasesOf "server" := by
    rw [haliases]
    decide
  obtain ⟨hhas, hhops, -, hcanonical⟩ := alias_queries_agree branchingCaller
    branchingIndex true branching branchingWorld 5 "server" "home"
  exact ⟨hserver, haliases, hhas.mpr hhome, hhops.mp hhome, (hcanonical hserver).mp hhome⟩

end InstanceRegistry
