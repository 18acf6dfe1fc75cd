import InstanceRegistry.Proofs.Registry.Frames
import InstanceRegistry.Proofs.Run.Moments

/-!
What requests are answered with. A request is answered at once, or when the factory that it has
started ends.

* `Registry.released`, `Registry.finishCreation_of_marked`, `Registry.finishCreation_of_unmarked`: a
  creation that ends, with the mark of its name or without it;
* `Registry.mem_inCreation_iff_of_demand`, `Registry.mem_inCreation_finishCreation_iff`: the marks
  when a creation has begun, and when it has ended;
* `Registry.suppressed_of_demand`, `Registry.suppressed_finishCreation`: the reported errors;
* `Config.Answers`: the next step answers a request;
* `Config.Answers.exists_ended`: a request that fails when the factory ends;
* `Config.Answers.does_enter`: a request that is refused for the mark of its name.
-/

namespace InstanceRegistry

variable {S : Setup} {α : Type} {r : S.Index}

namespace Registry

variable {g g' : Registry S} {name other : Name} {opened : Bool} {result : Except Error S.Object}

/-! ### The beginning of a creation -/

/-- A creation that begins marks its name, if the name is tracked. -/
lemma mem_inCreation_iff_of_demand (h : g.demand name = .create g' opened) :
    other ∈ g'.inCreation ↔ other ∈ g.inCreation ∨ (other = name ∧ name ∉ g.excluded) := by
  obtain ⟨-, marked, hmark, hmarks, -⟩ := exists_mark_of_demand h
  rw [hmarks]
  unfold mark at hmark
  split at hmark
  · next hexcluded =>
      cases hmark
      simp [hexcluded]
  · next hexcluded =>
      split at hmark
      · cases hmark
      · cases hmark
        rw [NameSet.mem_add, or_comm]
        simp [hexcluded]

/-- A creation that begins opens the record of reported errors, if there is none. -/
lemma suppressed_of_demand (h : g.demand name = .create g' opened) :
    opened = g.suppressed.isNone ∧ g'.suppressed = some (g.suppressed.getD []) := by
  have hopen : ∀ marked : Registry S, marked.suppressed = g.suppressed →
      marked.openReports.2 = g.suppressed.isNone ∧
        marked.openReports.1.suppressed = some (g.suppressed.getD []) := by
    intro marked hsame
    unfold openReports
    split
    · next errors hsome => simp [← hsame, hsome]
    · next hnone => simp [← hsame, hnone]
  have hmarked : ∀ marked : Registry S, g.mark name = some marked →
      marked.suppressed = g.suppressed := by
    intro marked hmark
    unfold mark at hmark
    split at hmark
    · cases hmark
      rfl
    · split at hmark
      · cases hmark
      · cases hmark
        rfl
  unfold demand at h
  split at h
  · cases h
  split at h
  · cases h
  split at h
  · cases h
  · next marked hmark =>
      cases h
      exact hopen marked (hmarked marked hmark)

/-! ### The end of a creation -/

/-- The registry after the mark of a name is taken away, if the name is tracked, and after the
record of reported errors is ended, if the creation of the name has opened it. -/
def released (g : Registry S) (name : Name) (opened : Bool) : Registry S :=
  { g with
    inCreation := if name ∈ g.excluded then g.inCreation else g.inCreation.erase name
    suppressed := if opened then none else g.suppressed }

/-- A creation that ends settles with the result of its factory, if its mark is there or does not
matter. -/
lemma finishCreation_of_marked (h : name ∈ g.inCreation ∨ name ∈ g.excluded) (opened : Bool)
    (result : Except Error S.Object) :
    g.finishCreation name opened result =
      (g.released name opened).settle name (g.closeReports opened).2 result := by
  have hunmark : (g.closeReports opened).1.unmark name = some (g.released name opened) := by
    by_cases hexcluded : name ∈ g.excluded
    · cases opened <;> simp [closeReports, unmark, released, hexcluded]
    · have hmark : name ∈ g.inCreation := h.resolve_right hexcluded
      cases opened <;> simp [closeReports, unmark, released, hexcluded, hmark]
  simp only [finishCreation, hunmark]

/-- A creation that ends without its mark fails for that. -/
lemma finishCreation_of_unmarked (hmark : name ∉ g.inCreation) (hexcluded : name ∉ g.excluded)
    (opened : Bool) (result : Except Error S.Object) :
    g.finishCreation name opened result =
      { registry := g.released name opened
        answer := .error (.notInCreation name)
        notices := [.unmarked name] } := by
  have herase : g.inCreation.erase name = g.inCreation := NameMap.erase_of_not_mem hmark
  cases opened <;>
    simp [finishCreation, closeReports, unmark, released, hexcluded, hmark, herase]

/-- The marks and the reported errors when a creation has ended do not depend on its result. -/
lemma finishCreation_frame (g : Registry S) (name : Name) (opened : Bool)
    (result : Except Error S.Object) :
    (g.finishCreation name opened result).registry.inCreation =
        (g.released name opened).inCreation ∧
      (g.finishCreation name opened result).registry.suppressed =
        (g.released name opened).suppressed := by
  by_cases hmark : name ∈ g.inCreation ∨ name ∈ g.excluded
  · rw [finishCreation_of_marked hmark]
    rcases settle_cases (g.released name opened) name (g.closeReports opened).2 result with
      ⟨o, hsettle⟩ | ⟨hregistry, -, -⟩
    · rw [hsettle]
      exact ⟨rfl, rfl⟩
    · rw [hregistry]
      exact ⟨rfl, rfl⟩
  · rw [not_or] at hmark
    rw [finishCreation_of_unmarked hmark.1 hmark.2]
    exact ⟨rfl, rfl⟩

/-- A creation that ends takes the mark of its name away, if the name is tracked. -/
lemma mem_inCreation_finishCreation_iff :
    other ∈ (g.finishCreation name opened result).registry.inCreation ↔
      other ∈ g.inCreation ∧ (other = name → name ∈ g.excluded) := by
  rw [(finishCreation_frame g name opened result).1, released]
  by_cases hexcluded : name ∈ g.excluded
  · simp [hexcluded]
  · simp [hexcluded, NameMap.mem_erase, and_comm]

/-- A creation that ends ends the record of reported errors, if it has opened it. -/
lemma suppressed_finishCreation :
    (g.finishCreation name opened result).registry.suppressed =
      if opened then none else g.suppressed :=
  (finishCreation_frame g name opened result).2

/-- A creation that finds its mark does not fail for the lack of it. -/
lemma answer_finishCreation_ne (h : name ∈ g.inCreation ∨ name ∈ g.excluded) :
    (g.finishCreation name opened result).answer ≠ .error (.notInCreation other) := by
  rw [finishCreation_of_marked h]
  unfold settle
  split
  · simp
  · split <;> simp
  · simp

/-- A creation that fails for its factory names the creation, keeps the failure of the factory, and
has the errors of the record that it has opened. -/
lemma eq_of_answer_finishCreation {cause : Error} {related : List Error}
    (h : (g.finishCreation name opened result).answer =
      .error (.creationFailed other cause related)) :
    other = name ∧ result = .error cause ∧
      related = if opened then g.suppressed.getD [] else [] := by
  by_cases hmark : name ∈ g.inCreation ∨ name ∈ g.excluded
  · rw [finishCreation_of_marked hmark] at h
    have hrelated : (g.closeReports opened).2 = if opened then g.suppressed.getD [] else [] := by
      cases opened <;> rfl
    unfold settle at h
    split at h
    · cases h
    · split at h <;> cases h
    · cases h
      exact ⟨rfl, rfl, hrelated⟩
  · rw [not_or] at hmark
    rw [finishCreation_of_unmarked hmark.1 hmark.2] at h
    cases h

/-- A request that is answered at once is answered with the bound object, or refused while all
objects are destroyed or for the mark of its name. -/
lemma answer_of_demand {answer : Except Error S.Object} {notices : List Notice}
    (h : g.demand name = .answered answer notices) :
    (∃ o, answer = .ok o) ∨ answer = .error (.creationForbidden name) ∨
      answer = .error (.inCreation name) := by
  unfold demand at h
  split at h
  · next o _ =>
      cases h
      exact Or.inl ⟨o, rfl⟩
  · split at h
    · cases h
      exact Or.inr (Or.inl rfl)
    split at h
    · cases h
      exact Or.inr (Or.inr rfl)
    · cases h

/-- A request that is refused for a mark is refused for the mark of its own name. -/
lemma mem_inCreation_of_demand_eq_answered {notices : List Notice}
    (h : g.demand name = .answered (.error (.inCreation other)) notices) :
    other = name ∧ name ∈ g.inCreation := by
  unfold demand at h
  split at h
  · cases h
  · split at h
    · cases h
    split at h
    · next hmark =>
        cases h
        unfold mark at hmark
        split at hmark
        · cases hmark
        · split at hmark
          · next hmem => exact ⟨rfl, hmem⟩
          · cases hmark
    · cases h

/-- A creation that ends is not refused for a mark. -/
lemma answer_finishCreation_ne_inCreation :
    (g.finishCreation name opened result).answer ≠ .error (.inCreation other) := by
  by_cases hmark : name ∈ g.inCreation ∨ name ∈ g.excluded
  · rw [finishCreation_of_marked hmark]
    unfold settle
    split
    · simp
    · split <;> simp
    · simp
  · rw [not_or] at hmark
    rw [finishCreation_of_unmarked hmark.1 hmark.2]
    simp

end Registry

/-! ### Answers -/

/-- The configurations whose next step answers a request for the name: at once, or because the
factory that the request has started ends. -/
inductive Config.Answers (r : S.Index) (name : Name) : Config S α → Except Error S.Object → Prop
  | once {role : Role} {factory : S.Factory}
      {next : Except Error S.Object → Script S (role.Result S α)} {stack : Stack S α role}
      {w : World S} {answer : Except Error S.Object} {notices : List Notice}
      (h : (w.registry r).demand name = .answered answer notices) :
      Answers r name ⟨role, .script (.demand r name factory next), stack, w⟩ answer
  | ended {role : Role} {opened : Bool} {result : Except Error S.Object}
      {next : Except Error S.Object → Script S (role.Result S α)} {below : Stack S α role}
      {w : World S} :
      Answers r name ⟨.factory, .script (.done result), .creating r name opened next below, w⟩
        ((w.registry r).finishCreation name opened result).answer

/-- A request that fails, and is not refused at once, fails when the factory ends. -/
lemma Config.Answers.exists_ended {c : Config S α} {name : Name} {e : Error}
    (h : c.Answers r name (.error e)) (hforbidden : e ≠ .creationForbidden name)
    (hmarked : e ≠ .inCreation name) :
    ∃ (role : Role) (opened : Bool) (result : Except Error S.Object)
      (next : Except Error S.Object → Script S (role.Result S α)) (below : Stack S α role)
      (w : World S),
      c = ⟨.factory, .script (.done result), .creating r name opened next below, w⟩ ∧
        ((w.registry r).finishCreation name opened result).answer = .error e := by
  generalize hanswer : (Except.error e : Except Error S.Object) = answer at h
  cases h with
  | once hdemand =>
      rcases Registry.answer_of_demand hdemand with ⟨o, rfl⟩ | rfl | rfl
      · cases hanswer
      · exact absurd (Except.error.inj hanswer) hforbidden
      · exact absurd (Except.error.inj hanswer) hmarked
  | ended => exact ⟨_, _, _, _, _, _, rfl, rfl⟩

/-- A request that is refused for a mark is refused at once, for the mark of its own name. -/
lemma Config.Answers.does_enter {c : Config S α} {name other : Name}
    (h : c.Answers r name (.error (.inCreation other))) :
    c.Does r (.enter name) ∧ other = name ∧ name ∈ (c.world.registry r).inCreation := by
  generalize hanswer : (Except.error (.inCreation other) : Except Error S.Object) = answer at h
  cases h with
  | once hdemand =>
      exact ⟨.enter name, Registry.mem_inCreation_of_demand_eq_answered (hanswer ▸ hdemand)⟩
  | ended => exact absurd hanswer.symm Registry.answer_finishCreation_ne_inCreation

end InstanceRegistry
