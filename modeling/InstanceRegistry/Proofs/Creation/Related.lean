import InstanceRegistry.Proofs.Run.Reports

/-!
Where the errors go that are reported while objects are created. The outermost creation keeps them
all, in order, and no other creation keeps any: an error that is reported outside of all creations,
or during an earlier one, is in no later failure.

* `Config.Unrecorded`: no creation is under way, and there is no record of reported errors;
* `Config.Collects`: the outermost creation has opened the record, and what the record holds;
* `Config.Unrecorded.step`, `Config.Collects.step`: what a step makes of them;
* `unrecorded_or_collects`: what the record holds at any moment of a run;
* `related_of_failure`: the errors that a failed creation keeps;
* `related_of_failure_nested`: a creation that fails inside another one.
-/

namespace InstanceRegistry

variable {S : Setup} {α : Type} {caller : Caller S} {r : S.Index} {name : Name}

/-! ### The record of the outermost creation -/

namespace Config

variable {c : Config S α} {errors : List Error}

/-- No creation of the registry is under way, and there is no record of reported errors. -/
structure Unrecorded (r : S.Index) (c : Config S α) : Prop where
  openings : c.openings r = []
  record : (c.world.registry r).suppressed = none

/-- The outermost creation under way is that of the name. It alone has opened the record of reported
errors, which holds these. -/
structure Collects (r : S.Index) (name : Name) (errors : List Error) (c : Config S α) : Prop where
  openings : ∃ inner : List Name, c.openings r = inner.map (·, false) ++ [(name, true)]
  record : (c.world.registry r).suppressed = some errors

lemma Unrecorded.creations_eq (h : c.Unrecorded r) : c.stack.creations r = [] := by
  rw [Stack.creations_eq_map]
  exact List.map_eq_nil_iff.mpr h.openings

lemma Collects.exists_creations_eq (h : c.Collects r name errors) :
    ∃ inner, c.stack.creations r = inner ++ [name] := by
  obtain ⟨inner, hinner⟩ := h.openings
  refine ⟨inner, ?_⟩
  rw [Stack.creations_eq_map, show c.stack.openings r = _ from hinner]
  simp [Function.comp_def]

variable (caller) in
/-- Without a record nothing is kept, up to the beginning of a creation. -/
lemma Unrecorded.step (h : c.Unrecorded r) :
    (step caller c).Unrecorded r ∨ ∃ name, (step caller c).Collects r name [] := by
  rcases step_records caller r c with
    ⟨hopenings, hrecord⟩ | ⟨-, name, hopenings, hrecord⟩ | ⟨-, name, opened, hopenings, -⟩
  · rw [h.openings] at hopenings
    rw [h.record] at hrecord
    exact Or.inl ⟨hopenings, hrecord⟩
  · rw [h.openings, h.record] at hopenings
    rw [h.record] at hrecord
    exact Or.inr ⟨name, ⟨[], hopenings⟩, hrecord⟩
  · exact absurd (h.openings.symm.trans hopenings) (List.cons_ne_nil _ _).symm

variable (caller) in
/-- The record gets what is reported, up to the end of the outermost creation. -/
lemma Collects.step (h : c.Collects r name errors) :
    (step caller c).Collects r name (errors ++ c.reports r) ∨ (step caller c).Unrecorded r := by
  obtain ⟨inner, hinner⟩ := h.openings
  rcases step_records caller r c with
    ⟨hopenings, hrecord⟩ | ⟨hnone, other, hopenings, hrecord⟩ |
      ⟨hnone, other, opened, hopenings, hrecord⟩
  · rw [h.record] at hrecord
    exact Or.inl ⟨⟨inner, hopenings.trans hinner⟩, hrecord⟩
  · -- the creation begins inside of the outermost one
    rw [h.record] at hopenings hrecord
    rw [hnone, List.append_nil]
    refine Or.inl ⟨⟨other :: inner, ?_⟩, hrecord⟩
    rw [hopenings, hinner]
    rfl
  · rw [hinner] at hopenings
    cases inner with
    | nil =>
        obtain ⟨hhead, htail⟩ := List.cons.inj hopenings
        obtain ⟨-, rfl⟩ := Prod.mk.inj hhead
        exact Or.inr ⟨htail.symm, hrecord⟩
    | cons first inner =>
        obtain ⟨hhead, htail⟩ := List.cons.inj hopenings
        obtain ⟨-, rfl⟩ := Prod.mk.inj hhead
        rw [h.record] at hrecord
        rw [hnone, List.append_nil]
        exact Or.inl ⟨⟨inner, htail.symm⟩, hrecord⟩

/-- A creation that fails for its factory is the innermost one, and keeps what the record holds if
it has opened the record. -/
lemma Answers.exists_openings_eq {failed : Name} {cause : Error} {related : List Error}
    (h : c.Answers r name (.error (.creationFailed failed cause related))) :
    ∃ opened below, c.openings r = (name, opened) :: below ∧ failed = name ∧
      related = if opened then (c.world.registry r).suppressed.getD [] else [] := by
  obtain ⟨role, opened, result, next, below, w, rfl, hanswer⟩ := h.exists_ended (by simp) (by simp)
  obtain ⟨hname, -, hrelated⟩ := Registry.eq_of_answer_finishCreation hanswer
  exact ⟨opened, below.openings r, if_pos rfl, hname, hrelated⟩

/-- A creation that fails for its factory keeps all that the record holds if it is the outermost
one, and nothing otherwise. -/
lemma Collects.related_eq (h : c.Collects r name errors) {other failed : Name} {cause : Error}
    {related : List Error}
    (hfails : c.Answers r other (.error (.creationFailed failed cause related))) :
    failed = other ∧ (c.stack.creations r = [other] → related = errors) ∧
      (c.stack.creations r ≠ [other] → related = []) := by
  obtain ⟨opened, below, hopenings, hname, hrelated⟩ := hfails.exists_openings_eq
  have hcreations : c.stack.creations r = other :: below.map Prod.fst := by
    rw [Stack.creations_eq_map, show c.stack.openings r = _ from hopenings]
    rfl
  rw [h.record] at hrelated
  rw [hcreations]
  obtain ⟨inner, hinner⟩ := h.openings
  have hsame := hopenings.symm.trans hinner
  cases inner with
  | nil =>
      obtain ⟨hhead, rfl⟩ := List.cons.inj hsame
      obtain ⟨-, rfl⟩ := Prod.mk.inj hhead
      exact ⟨hname, fun _ => hrelated, fun hnested => absurd rfl hnested⟩
  | cons first inner =>
      obtain ⟨hhead, rfl⟩ := List.cons.inj hsame
      obtain ⟨-, rfl⟩ := Prod.mk.inj hhead
      exact ⟨hname, fun hsingle => by simp at hsingle, fun _ => hrelated⟩

end Config

/-! ### Runs -/

section Runs

variable (caller) (s : Script S α) (w : World S)

/-- At any moment of a run, either no creation is under way and there is no record, or the record
holds what has been reported since the outermost creation began. -/
lemma unrecorded_or_collects (hstart : (w.registry r).suppressed = none) (k : ℕ) :
    (run caller k (Config.start s w)).Unrecorded r ∨
      ∃ i m name, k = i + 1 + m ∧ (run caller i (Config.start s w)).Unrecorded r ∧
        ∀ l ≤ m, (run caller (i + 1 + l) (Config.start s w)).Collects r name
          (reported caller r l (run caller (i + 1) (Config.start s w))) := by
  induction k with
  | zero => exact Or.inl ⟨rfl, hstart⟩
  | succ k ih =>
      rw [run_succ']
      rcases ih with hnone | ⟨i, m, name, rfl, hbefore, hcollects⟩
      · rcases hnone.step caller with hnext | ⟨name, hnext⟩
        · exact Or.inl hnext
        · refine Or.inr ⟨k, 0, name, rfl, hnone, fun l hl => ?_⟩
          obtain rfl : l = 0 := by omega
          rw [Nat.add_zero, run_succ']
          exact hnext
      · rcases (hcollects m le_rfl).step caller with hnext | hnext
        · refine Or.inr ⟨i, m + 1, name, rfl, hbefore, fun l hl => ?_⟩
          rcases Nat.lt_or_ge m l with hlast | hearlier
          · obtain rfl : l = m + 1 := by omega
            have hlater : run caller (i + 1 + (m + 1)) (Config.start s w) =
                step caller (run caller (i + 1 + m) (Config.start s w)) := run_succ' caller _ _
            rw [reported_succ', ← run_add, hlater]
            exact hnext
          · exact hcollects l hearlier
        · exact Or.inl hnext

/-- **The outermost creation keeps all reported errors**: in a run that begins without a record,
there is none at any moment outside of all creations. A creation that fails for its factory, while
`outermost` is the outermost creation under way, keeps what has been reported since that one began,
in order, if it is that creation itself, and otherwise nothing. -/
theorem related_of_failure (r : S.Index) (hstart : (w.registry r).suppressed = none) :
    (∀ k, (run caller k (Config.start s w)).stack.creations r = [] →
      ((run caller k (Config.start s w)).world.registry r).suppressed = none) ∧
    ∀ j name failed cause related, (run caller j (Config.start s w)).Answers r name
        (.error (.creationFailed failed cause related)) →
      ∃ i m outermost, j = i + 1 + m ∧
        (run caller i (Config.start s w)).stack.creations r = [] ∧
        (∀ l ≤ m, ∃ inner, (run caller (i + 1 + l) (Config.start s w)).stack.creations r =
          inner ++ [outermost]) ∧
        failed = name ∧
        ((run caller j (Config.start s w)).stack.creations r = [name] →
          related = reported caller r m (run caller (i + 1) (Config.start s w))) ∧
        ((run caller j (Config.start s w)).stack.creations r ≠ [name] → related = []) := by
  refine ⟨fun k hnone => ?_, fun j name failed cause related hfails => ?_⟩
  · rcases unrecorded_or_collects caller s w hstart k with h | ⟨i, m, name, rfl, -, hcollects⟩
    · exact h.record
    · obtain ⟨inner, hinner⟩ := (hcollects m le_rfl).exists_creations_eq
      rw [hnone] at hinner
      simp at hinner
  · rcases unrecorded_or_collects caller s w hstart j with
      h | ⟨i, m, outermost, rfl, hbefore, hcollects⟩
    · obtain ⟨opened, below, hopenings, -⟩ := hfails.exists_openings_eq
      exact absurd (h.openings.symm.trans hopenings) (List.cons_ne_nil _ _).symm
    · exact ⟨i, m, outermost, rfl, hbefore.creations_eq,
        fun l hl => (hcollects l hl).exists_creations_eq, (hcollects m le_rfl).related_eq hfails⟩

end Runs

/-! ### A creation that fails inside another one -/

/-- One registry, and two factories. -/
def reportingSetup : Setup := ⟨.basic, 1, Bool, Empty, Empty, Unit, Empty⟩

/-- The number of the registry. -/
def reportingIndex : reportingSetup.Index := Fin.mk 0 Nat.one_pos

/-- A failure of the caller's code. -/
def plainError (reason : String) : Error := .caller reason []

/-- Both factories report an error and fail. In between, the outer one asks for the inner name, and
reports another error. -/
def reportingCaller : Caller reportingSetup where
  factory
    | true =>
      .call reportingIndex (.suppress (plainError "first")) fun _ =>
        .demand reportingIndex "inner" false fun _ =>
          .call reportingIndex (.suppress (plainError "third")) fun _ =>
            .done (.error (plainError "outer"))
    | false =>
      .call reportingIndex (.suppress (plainError "second")) fun _ =>
        .done (.error (plainError "inner"))
  disposer d := d.elim
  observer o _ := o.elim

/-- A new registry as the only one of a world. -/
def reportingWorld : World reportingSetup := ⟨#v[{}], (), 0, []⟩

/-- An error is reported outside of all creations, and then the outer name is asked for. -/
def reporting : Script reportingSetup (Except Error reportingSetup.Object) :=
  .call reportingIndex (.suppress (plainError "early")) fun _ =>
    Script.obtain reportingIndex "outer" true

/-- The run of the script. -/
def reportingRun (k : ℕ) : Config reportingSetup (Except Error reportingSetup.Object) :=
  run reportingCaller k (Config.start reporting reportingWorld)

/-- The inner creation fails without reported errors, and the outer one with those of both, which
are what has been reported since it began. -/
theorem related_of_failure_nested :
    (reportingWorld.registry reportingIndex).suppressed = none ∧
    ((reportingRun 1).world.registry reportingIndex).suppressed = none ∧
    (reportingRun 5).Answers reportingIndex "inner"
      (.error (.creationFailed "inner" (plainError "inner") [])) ∧
    (reportingRun 7).Answers reportingIndex "outer"
      (.error (.creationFailed "outer" (plainError "outer")
        [plainError "first", plainError "second", plainError "third"])) ∧
    ∃ i m, 7 = i + 1 + m ∧ (reportingRun i).stack.creations reportingIndex = [] ∧
      [plainError "first", plainError "second", plainError "third"] =
        reported reportingCaller reportingIndex m (reportingRun (i + 1)) := by
  have hstart : (reportingWorld.registry reportingIndex).suppressed = none := rfl
  obtain ⟨houtside, hfailures⟩ :=
    related_of_failure reportingCaller reporting reportingWorld reportingIndex hstart
  have houter : (reportingRun 7).Answers reportingIndex "outer"
      (.error (.creationFailed "outer" (plainError "outer")
        [plainError "first", plainError "second", plainError "third"])) := .ended
  obtain ⟨i, m, outermost, him, hbefore, -, -, hrelated, -⟩ := hfailures 7 _ _ _ _ houter
  exact ⟨hstart, houtside 1 rfl, .ended, houter, i, m, him, hbefore, hrelated rfl⟩

end InstanceRegistry
