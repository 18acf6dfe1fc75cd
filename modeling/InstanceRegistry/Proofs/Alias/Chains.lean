import InstanceRegistry.Alias.Table
import InstanceRegistry.NameMap.Lemmas
import InstanceRegistry.Proofs.Search

/-!
The chains of targets in a table of aliases, read forwards from an alias and backwards from a name.

* `AliasTable.Targets`, `AliasTable.Hops`: one hop along the targets, and so many hops;
* `AliasTable.transGen_iff_exists_hops`: chains with and without the number of their hops;
* `AliasTable.hasAlias_iff`: what the search against the targets finds;
* `AliasTable.Acyclic`: the tables in which no alias leads to itself;
* `AliasTable.Hops.lt_size`: a chain of aliases has fewer hops than the table has aliases;
* `AliasTable.Acyclic.exists_hops_canonical`: every chain ends with the canonical name.
-/

namespace InstanceRegistry.AliasTable

open Relation (ReflTransGen TransGen)

variable {t : AliasTable} {name key a b : Name}

/-- The alias `a` has the target `b`. -/
def Targets (t : AliasTable) (a b : Name) : Prop := t.targets.get? a = some b

/-- So many targets, one after another, lead from a name to another one. -/
inductive Hops (t : AliasTable) : ℕ → Name → Name → Prop
  | zero (a : Name) : Hops t 0 a a
  | succ {hops : ℕ} {a b c : Name} (h : t.Targets a b) (rest : Hops t hops b c) :
      Hops t (hops + 1) a c

/-- No alias leads to itself. -/
def Acyclic (t : AliasTable) : Prop := ∀ a, ¬ TransGen t.Targets a a

/-! ### Aliases and targets -/

lemma isAlias_iff : t.isAlias name = true ↔ ∃ target, t.Targets name target := by
  rw [isAlias, decide_eq_true_iff, ← NameMap.isSome_get?_iff, Option.isSome_iff_exists]
  rfl

lemma Targets.isAlias (h : t.Targets a b) : t.isAlias a = true := isAlias_iff.mpr ⟨b, h⟩

lemma mem_directAliases : key ∈ t.directAliases name ↔ t.Targets key name := by
  rw [Targets, NameMap.get?_eq_some_iff, directAliases]
  simp

lemma edge_directAliases : Search.Edge t.directAliases a b ↔ t.Targets b a := mem_directAliases

/-- A chain of one target or more is one of so many hops. -/
lemma transGen_iff_exists_hops : TransGen t.Targets a b ↔ ∃ hops, 0 < hops ∧ t.Hops hops a b := by
  constructor
  · intro h
    induction h using TransGen.head_induction_on with
    | single hstep => exact ⟨1, Nat.one_pos, .succ hstep (.zero b)⟩
    | head hstep _ ih =>
        obtain ⟨hops, -, hrest⟩ := ih
        exact ⟨hops + 1, Nat.succ_pos hops, .succ hstep hrest⟩
  · rintro ⟨hops, hpos, h⟩
    induction h with
    | zero => exact absurd hpos (Nat.lt_irrefl 0)
    | succ hstep rest ih =>
        cases rest with
        | zero => exact .single hstep
        | succ hnext rest => exact .head hstep (ih (Nat.succ_pos _))

/-- **The search against the targets is exact**: it finds the aliases whose chains come by the
name. -/
theorem hasAlias_iff : t.hasAlias name key = true ↔ TransGen t.Targets key name := by
  have hclosed : ∀ a ∈ insert name t.targets.names.toFinset, ∀ b ∈ t.directAliases a,
      b ∈ insert name t.targets.names.toFinset := by
    intro a _ b hb
    have halias := (mem_directAliases.mp hb).isAlias
    rw [isAlias, decide_eq_true_iff] at halias
    exact Finset.mem_insert_of_mem (List.mem_toFinset.mpr halias)
  have hbound : (insert name t.targets.names.toFinset).card ≤ t.size + 1 := by
    have hnames := List.toFinset_card_le t.targets.names
    rw [NameMap.length_names] at hnames
    exact (Finset.card_insert_le _ _).trans (Nat.succ_le_succ hnames)
  have hswap : Search.Edge t.directAliases = Function.swap t.Targets := by
    ext a b
    exact edge_directAliases
  rw [hasAlias, Search.reaches_iff hclosed (Finset.mem_insert_self _ _) hbound, hswap,
    Relation.transGen_swap]

/-! ### The end of a chain -/

/-- Following at most so many targets makes some hops, and all of them unless the chain ends. -/
lemma exists_hops_follow (t : AliasTable) (bound : ℕ) (name : Name) :
    ∃ hops ≤ bound, t.Hops hops name (t.follow bound name) ∧
      (hops < bound → t.isAlias (t.follow bound name) = false) := by
  induction bound generalizing name with
  | zero => exact ⟨0, le_rfl, .zero name, fun h => absurd h (Nat.lt_irrefl 0)⟩
  | succ bound ih =>
      cases htarget : t.targets.get? name with
      | none =>
          have hfollow : t.follow (bound + 1) name = name := by simp only [follow, htarget]
          refine ⟨0, Nat.zero_le _, ?_, fun _ => ?_⟩
          · rw [hfollow]
            exact .zero name
          · rw [hfollow, Bool.eq_false_iff, ne_eq, isAlias_iff]
            rintro ⟨target, h⟩
            exact absurd (htarget.symm.trans h) (by simp)
      | some target =>
          have hfollow : t.follow (bound + 1) name = t.follow bound target := by
            simp only [follow, htarget]
          obtain ⟨hops, hle, hhops, hend⟩ := ih target
          rw [hfollow]
          exact ⟨hops + 1, Nat.succ_le_succ hle, .succ htarget hhops,
            fun h => hend (Nat.lt_of_succ_lt_succ h)⟩

/-- A chain that ends with an alias comes by different aliases only. -/
lemma Hops.exists_nodup (ht : t.Acyclic) {hops : ℕ} (h : t.Hops hops a b)
    (hb : t.isAlias b = true) :
    ∃ visited : List Name, visited.Nodup ∧ visited.length = hops + 1 ∧
      ∀ x ∈ visited, t.isAlias x = true ∧ ReflTransGen t.Targets a x := by
  induction h with
  | zero a =>
      refine ⟨[a], List.nodup_singleton a, rfl, fun x hx => ?_⟩
      rw [List.mem_singleton.mp hx]
      exact ⟨hb, ReflTransGen.refl⟩
  | @succ hops a b c hstep rest ih =>
      obtain ⟨visited, hnodup, hlength, hvisited⟩ := ih hb
      have hfresh : a ∉ visited := fun ha =>
        ht a (TransGen.head' hstep (hvisited a ha).2)
      refine ⟨a :: visited, List.nodup_cons.mpr ⟨hfresh, hnodup⟩, by simp [hlength], ?_⟩
      intro x hx
      rcases List.mem_cons.mp hx with rfl | hx
      · exact ⟨hstep.isAlias, ReflTransGen.refl⟩
      · exact ⟨(hvisited x hx).1, ReflTransGen.head hstep (hvisited x hx).2⟩

/-- A chain that ends with an alias has fewer hops than the table has aliases. -/
lemma Hops.lt_size (ht : t.Acyclic) {hops : ℕ} (h : t.Hops hops a b) (hb : t.isAlias b = true) :
    hops < t.size := by
  obtain ⟨visited, hnodup, hlength, hvisited⟩ := h.exists_nodup ht hb
  have hsub : visited ⊆ t.targets.names := fun x hx => of_decide_eq_true (hvisited x hx).1
  have hle := (hnodup.subperm hsub).length_le
  rw [NameMap.length_names, hlength] at hle
  exact hle

/-- **Every chain ends**: from any name, no more hops than there are aliases lead to the canonical
name, which is no alias. -/
theorem Acyclic.exists_hops_canonical (ht : t.Acyclic) (name : Name) :
    ∃ hops ≤ t.size, t.Hops hops name (t.canonical name) ∧
      t.isAlias (t.canonical name) = false := by
  obtain ⟨hops, hle, hhops, hend⟩ := t.exists_hops_follow t.size name
  refine ⟨hops, hle, hhops, ?_⟩
  by_contra halias
  rw [Bool.not_eq_false] at halias
  have hlt := hhops.lt_size ht halias
  exact absurd (halias.symm.trans (hend hlt)) (by simp)

end InstanceRegistry.AliasTable
