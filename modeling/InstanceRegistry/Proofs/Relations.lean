import Mathlib.Tactic
import InstanceRegistry.NameMap.Lemmas
import InstanceRegistry.Relations

/-!
The successors of a name after a change of a record of names.

* `mem_successors_link`: after a pair is recorded;
* `successors_erase`, `successors_unlinkAll`: after a name is dropped on the left or on the right;
* `Trim`: no name is recorded with nothing;
* `edges_erase_add`, `edges_unlinkAll_le`: the number of recorded pairs;
* `Relations.mem_dependents_depend`: the dependents after a dependency is recorded.
-/

namespace InstanceRegistry

namespace NameGraph

variable (g : NameGraph)

lemma successors_eq (name : Name) :
    g.successors name = ((NameMap.get? g name).map NameMap.names).getD [] := by
  unfold successors
  cases NameMap.get? g name <;> rfl

/-! ### Successors -/

lemma mem_successors_link {name other a b : Name} :
    b ∈ (g.link name other).successors a ↔ (a = name ∧ b = other) ∨ b ∈ g.successors a := by
  rw [successors_eq, link, NameMap.get?_insert]
  by_cases ha : a = name
  · subst ha
    have hs : b ∈ (((NameMap.get? g a).getD ∅ : NameSet).add other).names ↔
        b = other ∨ b ∈ ((NameMap.get? g a).getD ∅ : NameSet).names := by
      rw [NameSet.names_add]
      split
      · next h => exact ⟨Or.inr, fun hb => hb.elim (fun e => e ▸ h) id⟩
      · rw [List.mem_append, List.mem_singleton, or_comm]
    rw [if_pos rfl, Option.map_some, Option.getD_some, hs, successors_eq]
    cases NameMap.get? g a <;> simp
  · rw [if_neg ha, ← successors_eq]
    simp [ha]

lemma successors_erase (name a : Name) :
    successors (NameMap.erase g name) a = if a = name then [] else g.successors a := by
  rw [successors_eq, NameMap.get?_erase]
  by_cases ha : a = name
  · simp [ha]
  · rw [if_neg ha, if_neg ha, successors_eq]

lemma successors_unlinkAll (other a : Name) :
    (g.unlinkAll other).successors a = (g.successors a).filter (· ≠ other) := by
  rw [successors_eq, unlinkAll, NameMap.get?_filterMap, successors_eq]
  cases NameMap.get? g a with
  | none => rfl
  | some links =>
      simp only [Option.bind_some, Option.map_some, Option.getD_some, ← NameMap.names_erase]
      split
      · next h =>
          have hn : (NameMap.erase links other).entries = [] := List.isEmpty_iff.mp h
          simp [NameMap.names, hn]
      · rfl

lemma nodup_successors (name : Name) : (g.successors name).Nodup := by
  rw [successors_eq]
  cases NameMap.get? g name with
  | none => exact List.nodup_nil
  | some set => exact NameMap.nodup_names set

/-! ### Names with something recorded -/

variable {g}

/-- No name is recorded with nothing. -/
def Trim (g : NameGraph) : Prop := ∀ name ∈ g, g.successors name ≠ []

lemma mem_of_successors_ne_nil {name : Name} (h : g.successors name ≠ []) : name ∈ g := by
  rw [← NameMap.isSome_get?_iff]
  by_contra hnone
  rw [Option.not_isSome_iff_eq_none] at hnone
  exact h (by rw [successors_eq, hnone]; rfl)

lemma Trim.mem_iff (h : g.Trim) {name : Name} : name ∈ g ↔ g.successors name ≠ [] :=
  ⟨h name, mem_of_successors_ne_nil⟩

lemma trim_empty : Trim ∅ := fun _ hmem => absurd hmem List.not_mem_nil

lemma Trim.link (h : g.Trim) (name other : Name) : (g.link name other).Trim := by
  intro a ha
  by_cases hname : a = name
  · exact List.ne_nil_of_mem (g.mem_successors_link.mpr (Or.inl ⟨hname, rfl⟩))
  · have hold : a ∈ g := (NameMap.mem_insert.mp ha).resolve_left hname
    obtain ⟨b, hb⟩ := List.exists_mem_of_ne_nil _ (h a hold)
    exact List.ne_nil_of_mem (g.mem_successors_link.mpr (Or.inr hb))

lemma Trim.erase (h : g.Trim) (name : Name) : Trim (NameMap.erase g name) := by
  intro a ha
  obtain ⟨hname, ha⟩ := NameMap.mem_erase.mp ha
  rw [successors_erase, if_neg hname]
  exact h a ha

lemma trim_unlinkAll (g : NameGraph) (other : Name) : (g.unlinkAll other).Trim := by
  intro a ha
  obtain ⟨left, hleft⟩ := Option.isSome_iff_exists.mp (NameMap.isSome_get?_iff.mpr ha)
  have hget := hleft
  rw [unlinkAll, NameMap.get?_filterMap, Option.bind_eq_some_iff] at hleft
  obtain ⟨set, -, hset⟩ := hleft
  simp only [Option.ite_none_left_eq_some, Option.some.injEq] at hset
  obtain ⟨hempty, rfl⟩ := hset
  rw [successors_eq, hget]
  exact fun hnil => hempty (List.isEmpty_iff.mpr (List.map_eq_nil_iff.mp hnil))

variable (g)

/-! ### The number of recorded pairs -/

/-- A sum over entries is the sum without a name and the name's own part. -/
lemma sum_filter_add_find {entries : List (Name × NameSet)} (h : (entries.map Prod.fst).Nodup)
    (f : Name × NameSet → ℕ) (name : Name) :
    ((entries.filter fun entry => entry.1 ≠ name).map f).sum +
        ((entries.find? fun entry => entry.1 = name).map f).getD 0 = (entries.map f).sum := by
  induction entries with
  | nil => rfl
  | cons first rest ih =>
      rw [List.map_cons, List.nodup_cons] at h
      have hr := ih h.2
      by_cases hf : first.1 = name
      · have hnone : rest.find? (fun entry => entry.1 = name) = none := by
          rw [List.find?_eq_none]
          intro entry hentry he
          have : entry.1 = first.1 := by rw [hf]; simpa using he
          exact h.1 (this ▸ List.mem_map_of_mem hentry)
        rw [hnone] at hr
        simp only [hf, ne_eq, not_true_eq_false, decide_false, Bool.false_eq_true,
          not_false_eq_true, List.filter_cons_of_neg, decide_true, List.find?_cons_of_pos,
          Option.map_some, Option.getD_some, List.map_cons, List.sum_cons]
        simp only [Option.map_none, Option.getD_none, ne_eq] at hr
        omega
      · simp only [ne_eq, hf, not_false_eq_true, decide_true, List.filter_cons_of_pos,
          List.map_cons, List.sum_cons, decide_false, Bool.false_eq_true, List.find?_cons_of_neg]
        simp only [ne_eq] at hr
        omega

lemma edges_eq_sum (g : NameGraph) : g.edges = (g.entries.map fun entry => entry.2.size).sum := by
  rw [List.sum_eq_foldr, List.foldr_map]
  rfl

lemma edges_erase_add (name : Name) :
    edges (NameMap.erase g name) + (g.successors name).length = g.edges := by
  rw [edges_eq_sum, edges_eq_sum,
    ← sum_filter_add_find g.names_nodup (fun entry => entry.2.size) name]
  congr 1
  rw [successors_eq, NameMap.get?]
  cases g.entries.find? (fun entry => entry.1 = name) with
  | none => rfl
  | some entry => exact NameMap.length_names entry.2

lemma edges_unlinkAll_le (other : Name) : (g.unlinkAll other).edges ≤ g.edges := by
  simp only [edges_eq_sum, unlinkAll, NameMap.filterMap]
  induction g.entries with
  | nil => exact Nat.le_refl 0
  | cons first rest ih =>
      have hsize : (NameMap.erase first.2 other).size ≤ first.2.size := List.length_filter_le ..
      rw [List.filterMap_cons]
      by_cases hempty : (NameMap.erase first.2 other).isEmpty = true
      · simp only [hempty, if_true, Option.map_none, List.map_cons, List.sum_cons]
        exact ih.trans (Nat.le_add_left ..)
      · simp only [hempty, List.map_cons, List.sum_cons]
        exact Nat.add_le_add hsize ih

end NameGraph

namespace Relations

lemma mem_dependents_depend (g : Relations) {dependent dependency x y : Name} :
    x ∈ (g.depend dependent dependency).dependents.successors y ↔
      (y = dependency ∧ x = dependent) ∨ x ∈ g.dependents.successors y := by
  unfold depend
  split
  · next h =>
      refine ⟨Or.inr, ?_⟩
      rintro (⟨rfl, rfl⟩ | hx)
      · exact of_decide_eq_true h
      · exact hx
  · exact g.dependents.mem_successors_link

@[simp] lemma contents_depend (g : Relations) (dependent dependency : Name) :
    (g.depend dependent dependency).contents = g.contents := by
  unfold depend
  split <;> rfl

end Relations

end InstanceRegistry
