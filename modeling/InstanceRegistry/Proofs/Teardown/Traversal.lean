import InstanceRegistry.Proofs.Relations

/-!
The depth-first traversal of a record of names, which visits what is recorded under a name before
the name itself.

* `NameGraph.unseen`: how many names of the record are left;
* `NameGraph.postorder`: the names in the order in which they are visited;
* `NameGraph.not_mem_of_mem_postorder`, `NameGraph.nodup_postorder`: no name is visited twice;
* `NameGraph.postorder_eq_self`: without recorded pairs nothing is rearranged.
-/

namespace InstanceRegistry

namespace NameGraph

/-! ### The traversal -/

/-- How many names have something recorded under them and have not been seen. -/
def unseen (g : NameGraph) (seen : List Name) : ℕ :=
  ((NameMap.names g).toFinset \ seen.toFinset).card

lemma unseen_append_le (g : NameGraph) (more seen : List Name) :
    g.unseen (more ++ seen) ≤ g.unseen seen := by
  rw [unseen, unseen, List.toFinset_append]
  exact Finset.card_le_card (Finset.sdiff_subset_sdiff subset_rfl Finset.subset_union_right)

lemma unseen_cons_lt {g : NameGraph} {seen : List Name} {n : Name} (hn : n ∈ g) (h : n ∉ seen) :
    g.unseen (n :: seen) < g.unseen seen := by
  rw [unseen, unseen, List.toFinset_cons, Finset.sdiff_insert]
  exact Finset.card_erase_lt_of_mem
    (Finset.mem_sdiff.mpr ⟨List.mem_toFinset.mpr hn, mt List.mem_toFinset.mp h⟩)

/-- The order in which a depth-first traversal visits names that starts from these names, one after
the other, and has seen some before. It visits what is recorded under a name, in order, and then the
name. -/
def postorder (g : NameGraph) (seen : List Name) : List Name → List Name
  | [] => []
  | n :: rest =>
    if n ∈ seen then postorder g seen rest
    else
      let below := postorder g (n :: seen) (g.successors n)
      below ++ n :: postorder g (below ++ n :: seen) rest
termination_by names => (g.unseen seen, names.length)
decreasing_by
  · exact Prod.Lex.right _ (Nat.lt_succ_self _)
  · next h =>
      by_cases hn : n ∈ g
      · exact Prod.Lex.left _ _ (unseen_cons_lt hn h)
      · -- nothing is recorded under the name
        have hnone : g.successors n = [] := not_imp_comm.mp mem_of_successors_ne_nil hn
        rw [hnone]
        exact Prod.Lex.right' _ (g.unseen_append_le [n] seen) (Nat.zero_lt_succ _)
  · refine Prod.Lex.right' _ ?_ (Nat.lt_succ_self _)
    rw [List.append_cons]
    exact g.unseen_append_le _ seen

/-! ### No name is visited twice -/

variable {g : NameGraph} {seen names : List Name} {a : Name}

lemma not_mem_of_mem_postorder (h : a ∈ g.postorder seen names) : a ∉ seen := by
  fun_induction postorder g seen names with
  | case1 seen => cases h
  | case2 seen n rest hn ih => exact ih h
  | case3 seen n rest hn below ihbelow ihrest =>
      rcases List.mem_append.mp h with h | h
      · exact fun hseen => ihbelow h (List.mem_cons_of_mem n hseen)
      · rcases List.mem_cons.mp h with rfl | h
        · exact hn
        · exact fun hseen => ihrest h (List.mem_append_right _ (List.mem_cons_of_mem n hseen))

lemma nodup_postorder (g : NameGraph) (seen names : List Name) :
    (g.postorder seen names).Nodup := by
  fun_induction postorder g seen names with
  | case1 seen => exact List.nodup_nil
  | case2 seen n rest hn ih => exact ih
  | case3 seen n rest hn below ihbelow ihrest =>
      have hlater : ∀ a ∈ postorder g (below ++ n :: seen) rest, a ∉ below ∧ a ≠ n := by
        intro a ha
        have hnew := not_mem_of_mem_postorder ha
        simp only [List.mem_append, List.mem_cons, not_or] at hnew
        exact ⟨hnew.1, hnew.2.1⟩
      refine ihbelow.append (List.nodup_cons.mpr ⟨fun h => (hlater n h).2 rfl, ihrest⟩) ?_
      intro a hbelow hafter
      rcases List.mem_cons.mp hafter with rfl | hafter
      · exact not_mem_of_mem_postorder hbelow List.mem_cons_self
      · exact (hlater a hafter).1 hbelow

/-! ### Records without pairs -/

/-- When nothing is recorded under any name, the names are visited as they come. -/
lemma postorder_eq_self (hnone : ∀ n, g.successors n = []) (hnodup : names.Nodup)
    (hseen : ∀ n ∈ names, n ∉ seen) : g.postorder seen names = names := by
  induction names generalizing seen with
  | nil => rw [postorder]
  | cons n rest ih =>
      obtain ⟨hn, hrest⟩ := List.nodup_cons.mp hnodup
      have hbelow : g.postorder (n :: seen) (g.successors n) = [] := by rw [hnone, postorder]
      have hlater : g.postorder (n :: seen) rest = rest := by
        refine ih hrest fun m hm hmem => ?_
        rcases List.mem_cons.mp hmem with rfl | hmem
        · exact hn hm
        · exact hseen m (List.mem_cons_of_mem n hm) hmem
      rw [postorder, if_neg (hseen n List.mem_cons_self)]
      simp only [hbelow, List.nil_append, hlater]

end NameGraph

end InstanceRegistry
