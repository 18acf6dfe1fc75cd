import Mathlib.Data.List.TakeWhile
import Mathlib.Tactic
import InstanceRegistry.Search

/-!
What a search finds along the edges of a finite graph of names: exactly the names at the ends of
paths, if it may expand as many names as the graph has.

* `Edge`: the edges along which a search goes;
* `exists_transGen_of_reaches`: whatever is found is at the end of a path;
* `Explored`: the names that have been expanded lead to names that have been, or are to be;
* `not_transGen_of_reaches_eq_false`: whatever is not found is not at the end of a path;
* `reaches_iff`: both together;
* `Answers`, `answers_reaches`: the search without a bound, which ends with the same answer;
* `Discovered`: the names that have been collected, and those of them that are to be expanded;
* `mem_collect_iff`, `nodup_collect`: what is collected, each name once.
-/

namespace InstanceRegistry.Search

open Relation (TransGen)

variable {next : Name → List Name} {goal : Name} {bound : ℕ} {seen pending : List Name}

/-- The name `b` is one edge away from `a`. -/
def Edge (next : Name → List Name) (a b : Name) : Prop := b ∈ next a

/-! ### What is found -/

/-- Whatever is found is at the end of a path from a pending name. -/
lemma exists_transGen_of_reaches (h : reaches next goal bound seen pending = true) :
    ∃ a ∈ pending, TransGen (Edge next) a goal := by
  induction bound generalizing seen pending with
  | zero => cases h
  | succ bound ih =>
      rw [reaches] at h
      split at h
      · cases h
      · next name rest hdrop =>
          have hpending : ∀ a ∈ name :: rest, a ∈ pending := fun a ha =>
            (List.dropWhile_sublist _).subset (hdrop ▸ ha)
          rw [Bool.or_eq_true, decide_eq_true_iff] at h
          rcases h with hgoal | hlater
          · exact ⟨name, hpending name List.mem_cons_self, .single hgoal⟩
          · obtain ⟨a, ha, hpath⟩ := ih hlater
            rcases List.mem_append.mp ha with hnext | hrest
            · exact ⟨name, hpending name List.mem_cons_self, .head hnext hpath⟩
            · exact ⟨a, hpending a (List.mem_cons_of_mem name hrest), hpath⟩

/-! ### What is not found -/

/-- What a search passes over has been expanded. -/
lemma mem_seen_or_dropWhile {a : Name} (ha : a ∈ pending) :
    a ∈ seen ∨ a ∈ pending.dropWhile (· ∈ seen) := by
  rw [← List.takeWhile_append_dropWhile (p := (· ∈ seen)) (l := pending)] at ha
  refine (List.mem_append.mp ha).imp_left fun htake => ?_
  simpa using List.mem_takeWhile_imp htake

/-- The expanded names are not one edge away from the goal, and lead to names that are expanded or
pending. -/
structure Explored (next : Name → List Name) (goal : Name) (seen pending : List Name) : Prop where
  missed : ∀ a ∈ seen, goal ∉ next a
  closed : ∀ a ∈ seen, ∀ b ∈ next a, b ∈ seen ∨ b ∈ pending

namespace Explored

lemma nil : Explored next goal [] pending := ⟨by simp, by simp⟩

/-- With nothing pending, no expanded name leads to the goal. -/
lemma not_transGen (h : Explored next goal seen []) {a : Name} (ha : a ∈ seen) :
    ¬ TransGen (Edge next) a goal := by
  intro hpath
  induction hpath using TransGen.head_induction_on with
  | single hstep => exact h.missed _ ha hstep
  | head hstep _ ih => exact ih ((h.closed _ ha _ hstep).resolve_right List.not_mem_nil)

/-- The names that are passed over can be left out. -/
lemma dropWhile (h : Explored next goal seen pending) :
    Explored next goal seen (pending.dropWhile (· ∈ seen)) where
  missed := h.missed
  closed a ha b hb := (h.closed a ha b hb).elim Or.inl mem_seen_or_dropWhile

/-- The next pending name is expanded, and the names one edge away from it are pending. -/
lemma expand {name : Name} {rest : List Name} (h : Explored next goal seen (name :: rest))
    (hgoal : goal ∉ next name) : Explored next goal (name :: seen) (next name ++ rest) where
  missed a ha := by
    rcases List.mem_cons.mp ha with rfl | ha
    · exact hgoal
    · exact h.missed a ha
  closed a ha b hb := by
    rw [List.mem_cons, List.mem_append]
    rcases List.mem_cons.mp ha with rfl | ha
    · exact Or.inr (Or.inl hb)
    · rcases h.closed a ha b hb with hseen | hpending
      · exact Or.inl (Or.inr hseen)
      · rcases List.mem_cons.mp hpending with hname | hrest
        · exact Or.inl (Or.inl hname)
        · exact Or.inr (Or.inr hrest)

end Explored

/-- The first name that is not passed over has not been expanded. -/
lemma notMem_of_dropWhile_eq_cons {name : Name} {rest : List Name}
    (h : pending.dropWhile (· ∈ seen) = name :: rest) : name ∉ seen := by
  have hhead := List.head_dropWhile_not (fun b => decide (b ∈ seen)) (l := pending)
    (by rw [h]; exact List.cons_ne_nil _ _)
  simpa [h] using hhead

/-- Fewer names are left once one of them is expanded. -/
lemma card_sdiff_cons_lt {names : Finset Name} {name : Name} (hname : name ∈ names)
    (hfresh : name ∉ seen) :
    (names \ (name :: seen).toFinset).card < (names \ seen.toFinset).card := by
  rw [List.toFinset_cons, Finset.sdiff_insert]
  exact Finset.card_erase_lt_of_mem
    (Finset.mem_sdiff.mpr ⟨hname, mt List.mem_toFinset.mp hfresh⟩)

/-- Whatever is not found is not at the end of a path, if the search may expand every name that it
has not expanded before. -/
lemma not_transGen_of_reaches_eq_false {names : Finset Name}
    (hclosed : ∀ a ∈ names, ∀ b ∈ next a, b ∈ names) (hpending : ∀ a ∈ pending, a ∈ names)
    (hbound : (names \ seen.toFinset).card ≤ bound) (hexplored : Explored next goal seen pending)
    (h : reaches next goal bound seen pending = false) {a : Name} (ha : a ∈ seen ∨ a ∈ pending) :
    ¬ TransGen (Edge next) a goal := by
  induction bound generalizing seen pending with
  | zero =>
      -- every name has been expanded
      have hempty : names \ seen.toFinset = ∅ := Finset.card_eq_zero.mp (Nat.le_zero.mp hbound)
      have hseen : ∀ b ∈ pending, b ∈ seen := fun b hb =>
        List.mem_toFinset.mp (Finset.sdiff_eq_empty_iff_subset.mp hempty (hpending b hb))
      have hdone : Explored next goal seen [] :=
        ⟨hexplored.missed, fun b hb c hc =>
          Or.inl ((hexplored.closed b hb c hc).elim id (hseen c))⟩
      exact hdone.not_transGen (ha.elim id (hseen a))
  | succ bound ih =>
      have ha' : a ∈ seen ∨ a ∈ pending.dropWhile (· ∈ seen) :=
        ha.elim Or.inl mem_seen_or_dropWhile
      have hexplored' := hexplored.dropWhile
      have hpending' : ∀ b ∈ pending.dropWhile (· ∈ seen), b ∈ names := fun b hb =>
        hpending b ((List.dropWhile_sublist _).subset hb)
      rw [reaches] at h
      split at h
      · next hdrop =>
          rw [hdrop] at ha' hexplored'
          exact hexplored'.not_transGen (ha'.resolve_right List.not_mem_nil)
      · next name rest hdrop =>
          rw [hdrop] at ha' hexplored' hpending'
          rw [Bool.or_eq_false_iff, decide_eq_false_iff_not] at h
          have hname : name ∈ names := hpending' name List.mem_cons_self
          have hfewer := card_sdiff_cons_lt hname (notMem_of_dropWhile_eq_cons hdrop)
          refine ih ?_ (by omega) (hexplored'.expand h.1) h.2 ?_
          · intro b hb
            rcases List.mem_append.mp hb with hnext | hrest
            · exact hclosed name hname b hnext
            · exact hpending' b (List.mem_cons_of_mem name hrest)
          · rw [List.mem_cons, List.mem_append]
            rcases ha' with hseen | hrest
            · exact Or.inl (Or.inr hseen)
            · exact (List.mem_cons.mp hrest).imp Or.inl Or.inr

/-- **A search finds what it can reach**, if it may expand as many names as the graph has. -/
theorem reaches_iff {start : Name} {names : Finset Name}
    (hclosed : ∀ a ∈ names, ∀ b ∈ next a, b ∈ names) (hstart : start ∈ names)
    (hbound : names.card ≤ bound) :
    reaches next goal bound [] [start] = true ↔ TransGen (Edge next) start goal := by
  constructor
  · intro h
    obtain ⟨a, ha, hpath⟩ := exists_transGen_of_reaches h
    rwa [List.mem_singleton.mp ha] at hpath
  · intro hpath
    by_contra h
    have hpending : ∀ a ∈ [start], a ∈ names := fun a ha => List.mem_singleton.mp ha ▸ hstart
    have hmissed : ¬ TransGen (Edge next) start goal :=
      not_transGen_of_reaches_eq_false hclosed hpending (by simpa using hbound) Explored.nil
        (Bool.eq_false_iff.mpr h) (Or.inr (List.mem_singleton_self start))
    exact hmissed hpath

/-! ### The search without a bound -/

/-- The search that has expanded the names in `seen` and is to expand the pending ones ends with the
answer, whatever number of names it expands. -/
inductive Answers (next : Name → List Name) (goal : Name) : List Name → List Name → Bool → Prop
  /-- Nothing is pending. -/
  | exhausted (seen : List Name) : Answers next goal seen [] false
  /-- The next name has been expanded already. -/
  | skip {name : Name} {seen rest : List Name} {answer : Bool} (hseen : name ∈ seen)
      (h : Answers next goal seen rest answer) : Answers next goal seen (name :: rest) answer
  /-- The goal is one edge away from the next name. -/
  | found {name : Name} {seen rest : List Name} (hfresh : name ∉ seen) (hgoal : goal ∈ next name) :
      Answers next goal seen (name :: rest) true
  /-- The next name is expanded. -/
  | expand {name : Name} {seen rest : List Name} {answer : Bool} (hfresh : name ∉ seen)
      (hmissed : goal ∉ next name)
      (h : Answers next goal (name :: seen) (next name ++ rest) answer) :
      Answers next goal seen (name :: rest) answer

/-- Names that have been expanded already may come first. -/
lemma Answers.of_dropWhile {answer : Bool}
    (h : Answers next goal seen (pending.dropWhile (· ∈ seen)) answer) :
    Answers next goal seen pending answer := by
  induction pending with
  | nil => exact h
  | cons name rest ih =>
      rw [List.dropWhile_cons] at h
      split at h
      · next hseen => exact .skip (of_decide_eq_true hseen) (ih h)
      · exact h

/-- **A search ends** without any bound, and with the same answer, if the bound is the number of
names that have not been expanded. -/
theorem answers_reaches {names : Finset Name} (hclosed : ∀ a ∈ names, ∀ b ∈ next a, b ∈ names)
    (hpending : ∀ a ∈ pending, a ∈ names) (hbound : (names \ seen.toFinset).card ≤ bound) :
    Answers next goal seen pending (reaches next goal bound seen pending) := by
  have hpending' : ∀ b ∈ pending.dropWhile (· ∈ seen), b ∈ names := fun b hb =>
    hpending b ((List.dropWhile_sublist _).subset hb)
  apply Answers.of_dropWhile
  induction bound generalizing seen pending with
  | zero =>
      -- every name has been expanded
      cases hdrop : pending.dropWhile (· ∈ seen) with
      | nil => exact .exhausted seen
      | cons name rest =>
          have hname := hpending' name (hdrop ▸ List.mem_cons_self)
          have hfewer := card_sdiff_cons_lt hname (notMem_of_dropWhile_eq_cons hdrop)
          omega
  | succ bound ih =>
      rw [reaches]
      cases hdrop : pending.dropWhile (· ∈ seen) with
      | nil => exact .exhausted seen
      | cons name rest =>
          rw [hdrop] at hpending'
          have hfresh := notMem_of_dropWhile_eq_cons hdrop
          have hname := hpending' name List.mem_cons_self
          have hfewer := card_sdiff_cons_lt hname hfresh
          by_cases hgoal : goal ∈ next name
          · simp only [hgoal, decide_true, Bool.true_or]
            exact .found hfresh hgoal
          · simp only [hgoal, decide_false, Bool.false_or]
            have hnext : ∀ b ∈ next name ++ rest, b ∈ names := fun b hb =>
              (List.mem_append.mp hb).elim (hclosed name hname b)
                fun hb => hpending' b (List.mem_cons_of_mem name hb)
            refine .expand hfresh hgoal (Answers.of_dropWhile (ih hnext (by omega) ?_))
            exact fun b hb => hnext b ((List.dropWhile_sublist _).subset hb)

/-! ### What is collected -/

variable {start name : Name} {rest found : List Name}

/-- The names that an expansion discovers. -/
def fresh (next : Name → List Name) (name : Name) (found : List Name) : List Name :=
  (next name).filter (· ∉ found)

lemma mem_fresh {a : Name} : a ∈ fresh next name found ↔ a ∈ next name ∧ a ∉ found := by
  simp [fresh]

/-- The found names are at the ends of paths from the start, and lead to found names unless they are
still to be expanded. The start itself is found only if a path leads back to it. -/
structure Discovered (next : Name → List Name) (start : Name) (pending found : List Name) :
    Prop where
  sound : ∀ a ∈ found, TransGen (Edge next) start a
  origin : ∀ a ∈ pending, a = start ∨ a ∈ found
  closed : ∀ a, a = start ∨ a ∈ found → a ∉ pending → ∀ b ∈ next a, b ∈ found

namespace Discovered

lemma first (next : Name → List Name) (start : Name) : Discovered next start [start] [] where
  sound a ha := absurd ha List.not_mem_nil
  origin a ha := Or.inl (List.mem_singleton.mp ha)
  closed a ha hpending := by
    rcases ha with rfl | ha
    · exact absurd (List.mem_singleton_self a) hpending
    · exact absurd ha List.not_mem_nil

/-- The next pending name is expanded, and what that discovers is found and pending. -/
lemma expand (h : Discovered next start (name :: rest) found) :
    Discovered next start ((fresh next name found).reverse ++ rest)
      (found ++ fresh next name found) where
  sound a ha := by
    rcases List.mem_append.mp ha with ha | ha
    · exact h.sound a ha
    · have hstep : Edge next name a := (mem_fresh.mp ha).1
      rcases h.origin name List.mem_cons_self with rfl | hname
      · exact .single hstep
      · exact .tail (h.sound name hname) hstep
  origin a ha := by
    rcases List.mem_append.mp ha with ha | ha
    · exact Or.inr (List.mem_append_right _ (List.mem_reverse.mp ha))
    · exact (h.origin a (List.mem_cons_of_mem name ha)).imp_right (List.mem_append_left _)
  closed a ha hpending b hb := by
    rw [List.mem_append, List.mem_reverse, not_or] at hpending
    by_cases hb' : b ∈ found
    · exact List.mem_append_left _ hb'
    by_cases hname : a = name
    · subst hname
      exact List.mem_append_right _ (mem_fresh.mpr ⟨hb, hb'⟩)
    · have hold : a = start ∨ a ∈ found :=
        ha.imp_right fun ha => (List.mem_append.mp ha).resolve_right hpending.1
      have hmissed : a ∉ name :: rest := by simp [hname, hpending.2]
      exact absurd (h.closed a hold hmissed b hb) hb'

/-- With nothing pending, the found names are the ends of all paths. -/
lemma mem_iff (h : Discovered next start [] found) {a : Name} :
    a ∈ found ↔ TransGen (Edge next) start a := by
  refine ⟨h.sound a, fun hpath => ?_⟩
  induction hpath with
  | single hstep => exact h.closed start (Or.inl rfl) List.not_mem_nil _ hstep
  | tail _ hstep ih => exact h.closed _ (Or.inr ih) List.not_mem_nil _ hstep

end Discovered

/-- What a search collects are the ends of all paths, if it may expand what is pending and whatever
it has not found yet. -/
lemma mem_collect_iff_of_discovered {names : Finset Name} (hnext : ∀ a, ∀ b ∈ next a, b ∈ names)
    (hnodup : ∀ a, (next a).Nodup) (h : Discovered next start pending found)
    (hbound : pending.length + (names \ found.toFinset).card ≤ bound) {a : Name} :
    a ∈ collect next bound pending found ↔ TransGen (Edge next) start a := by
  induction bound generalizing pending found with
  | zero =>
      obtain rfl : pending = [] := List.length_eq_zero_iff.mp (by omega)
      exact h.mem_iff
  | succ bound ih =>
      cases pending with
      | nil => exact h.mem_iff
      | cons name rest =>
          -- an expansion discovers as many names as it makes pending
          have hfresh : (fresh next name found).toFinset ⊆ names \ found.toFinset := by
            intro b hb
            obtain ⟨hb, hfound⟩ := mem_fresh.mp (List.mem_toFinset.mp hb)
            exact Finset.mem_sdiff.mpr ⟨hnext name b hb, by simpa using hfound⟩
          have hsize : (fresh next name found).toFinset.card = (fresh next name found).length :=
            List.toFinset_card_of_nodup ((hnodup name).filter _)
          have hleft : names \ (found ++ fresh next name found).toFinset =
              (names \ found.toFinset) \ (fresh next name found).toFinset := by
            rw [List.toFinset_append, sdiff_sdiff_left]
            rfl
          have hcard := Finset.card_sdiff_add_card_eq_card hfresh
          have hbound' : ((fresh next name found).reverse ++ rest).length +
              (names \ (found ++ fresh next name found).toFinset).card ≤ bound := by
            rw [hleft, List.length_append, List.length_reverse]
            rw [List.length_cons] at hbound
            omega
          exact ih h.expand hbound'

/-- **A search collects what it can reach**, if it may expand as many names as edges lead to, and
one more. -/
theorem mem_collect_iff {names : Finset Name} (hnext : ∀ a, ∀ b ∈ next a, b ∈ names)
    (hnodup : ∀ a, (next a).Nodup) (hbound : names.card + 1 ≤ bound) {a : Name} :
    a ∈ collect next bound [start] [] ↔ TransGen (Edge next) start a :=
  mem_collect_iff_of_discovered hnext hnodup (Discovered.first next start)
    (by simpa [Nat.add_comm] using hbound)

/-- No name is collected twice. -/
theorem nodup_collect (hnodup : ∀ a, (next a).Nodup) (hfound : found.Nodup) :
    (collect next bound pending found).Nodup := by
  induction bound generalizing pending found with
  | zero => exact hfound
  | succ bound ih =>
      cases pending with
      | nil => exact hfound
      | cons name rest =>
          have hmore : (found ++ fresh next name found).Nodup :=
            hfound.append ((hnodup name).filter _) fun a ha hfresh => (mem_fresh.mp hfresh).2 ha
          exact ih hmore

end InstanceRegistry.Search
