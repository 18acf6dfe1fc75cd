import InstanceRegistry.Proofs.Creation.Family

/-!
Cycles between factories. A factory that has everything it requires created before it makes its own
object succeeds exactly when no cycle is required: a name that is asked for while it is being
created is refused, and every creation around it fails with that as its cause.

* `Family.Sorted`: the lists of names in which every requirement comes first;
* `Family.Fails`: a failure that is due to a cycle, by the creations that it passes through;
* `Construction`, `Construction.construct`: a family of names with such factories;
* `Construction.Stage`: a registry while some of the names are being created;
* `Construction.exists_ends_iff_acyclic`: the creation of a name ends, with an object exactly if the
  name needs no cycle.
-/

namespace InstanceRegistry

variable {S : Setup}

open Relation (ReflTransGen TransGen)

namespace Family

variable {d : Family} {active order : List Name} {n m : Name} {e : Error}

/-! ### Requirements first -/

variable (d) in
/-- What a name of the list requires comes before it. -/
def Sorted (order : List Name) : Prop :=
  ∀ before a after, order = before ++ a :: after → ∀ m ∈ d.requires a, m ∈ before

namespace Sorted

lemma nil : d.Sorted [] := fun before a after h => by simp at h

lemma concat (h : d.Sorted order) (hn : ∀ m ∈ d.requires n, m ∈ order) :
    d.Sorted (order ++ [n]) := by
  intro before a after heq m hm
  rcases List.eq_nil_or_concat after with rfl | ⟨after, last, rfl⟩
  · obtain ⟨rfl, hlast⟩ := List.append_inj' heq rfl
    obtain rfl : n = a := by simpa using hlast
    exact hn m hm
  · have heq' : order ++ [n] = (before ++ a :: after) ++ [last] := by simp [heq]
    obtain ⟨rfl, -⟩ := List.append_inj' heq' rfl
    exact h before a after rfl m hm

/-- Whatever a listed name needs comes before it. -/
lemma mem_of_transGen (h : d.Sorted order) {before after : List Name}
    (heq : order = before ++ n :: after) (hneed : TransGen d.Requires n m) : m ∈ before := by
  induction hneed with
  | single hstep => exact h before n after heq _ hstep
  | @tail b c _ hstep ih =>
      obtain ⟨first, rest, rfl⟩ := List.append_of_mem ih
      have hsplit : order = first ++ b :: (rest ++ n :: after) := by simpa using heq
      exact List.mem_append_left _ (h first _ _ hsplit _ hstep)

lemma mem_of_needs (h : d.Sorted order) (hn : n ∈ order) (hneed : d.Needs n m) : m ∈ order := by
  obtain ⟨before, after, heq⟩ := List.append_of_mem hn
  rcases Relation.reflTransGen_iff_eq_or_transGen.mp hneed with rfl | hneed
  · exact hn
  · rw [heq]
    exact List.mem_append_left _ (h.mem_of_transGen heq hneed)

/-- No listed name needs itself. -/
theorem not_transGen (h : d.Sorted order) (hnodup : order.Nodup) (hn : n ∈ order) :
    ¬ TransGen d.Requires n n := by
  intro hcycle
  obtain ⟨before, after, rfl⟩ := List.append_of_mem hn
  exact (List.nodup_append.mp hnodup).2.2 n (h.mem_of_transGen rfl hcycle) n List.mem_cons_self rfl

end Sorted

/-! ### Failures -/

variable (d) in
/-- While the active names are being created, the request for a name fails because one of them is
asked for again, by the name itself or in a creation that it asks for. -/
inductive Fails : List Name → Name → Error → Prop
  | again {active : List Name} {n : Name} (hn : n ∈ active) : Fails active n (.inCreation n)
  | nested {active : List Name} {n m : Name} {cause : Error} (reported : List Error)
      (hm : d.Requires n m) (hcause : Fails (n :: active) m cause) :
      Fails active n (.creationFailed n cause reported)

end Family

/-- The names of nested failed creations, the outermost first. -/
def Error.creations : Error → List Name
  | creationFailed name cause _ => name :: cause.creations
  | _ => []

namespace Family

variable {d : Family} {active : List Name} {n : Name} {e : Error}

namespace Fails

/-- The failure shows a cycle that the name needs, or a name that was being created already. -/
lemma cycle (h : d.Fails active n e) :
    ∃ x, d.Needs n x ∧ (x ∈ active ∨ TransGen d.Requires x x) := by
  induction h with
  | @again active n hn => exact ⟨n, ReflTransGen.refl, Or.inl hn⟩
  | @nested active n m cause reported hm hcause ih =>
      obtain ⟨x, hneed, hx⟩ := ih
      refine ⟨x, ReflTransGen.head hm hneed, ?_⟩
      rcases hx with hx | hx
      · rcases List.mem_cons.mp hx with rfl | hx
        · exact Or.inr (TransGen.head' hm hneed)
        · exact Or.inl hx
      · exact Or.inr hx

/-- The names of the failed creations lead from requirement to requirement to the name that was
asked for again. -/
lemma creations (h : d.Fails active n e) :
    (n ∈ active ∧ e = .inCreation n) ∨
    (e.creations.head? = some n ∧ e.creations.IsChain d.Requires ∧
      ∃ last x, e.creations.getLast? = some last ∧ d.Requires last x ∧
        e.rootCause = .inCreation x ∧ (x ∈ e.creations ∨ x ∈ active)) := by
  induction h with
  | again hn => exact Or.inl ⟨hn, rfl⟩
  | @nested active n m cause reported hm hcause ih =>
      right
      rcases ih with ⟨hmem, rfl⟩ | ⟨hhead, hchain, last, x, hlast, hx, hroot, hmem⟩
      · refine ⟨rfl, List.isChain_singleton n, n, m, rfl, hm, rfl, ?_⟩
        exact (List.mem_cons.mp hmem).imp_left fun h => List.mem_singleton.mpr h
      · obtain ⟨rest, hrest⟩ : ∃ rest, cause.creations = m :: rest := by
          cases hc : cause.creations with
          | nil => rw [hc] at hhead; cases hhead
          | cons first rest =>
              rw [hc, List.head?_cons, Option.some.injEq] at hhead
              exact ⟨rest, by rw [hhead]⟩
        refine ⟨rfl, ?_, last, x, ?_, hx, hroot, ?_⟩
        · rw [hrest] at hchain
          rw [Error.creations, hrest]
          exact List.isChain_cons_cons.mpr ⟨hm, hchain⟩
        · rw [hrest] at hlast
          rw [Error.creations, hrest, List.getLast?_cons_cons, hlast]
        · rw [Error.creations, List.mem_cons]
          rcases hmem with hmem | hmem
          · exact Or.inl (Or.inr hmem)
          · rcases List.mem_cons.mp hmem with rfl | hmem
            · exact Or.inl (Or.inl rfl)
            · exact Or.inr hmem

end Fails

end Family

/-! ### Factories that create what they require -/

/-- A finite family of names, each with its factory and the value of the object that it makes. -/
structure Construction (S : Setup) extends Family where
  value : Name → S.Value
  build : Name → S.Factory

/-- The name whose factory a creation starts, as a line of the journal of the registry says. -/
def Entry.creation? (r : S.Index) : Entry S → Option Name
  | .started s name (.creation _) => if s = r then some name else none
  | _ => none

namespace Construction

variable (d : Construction S) (caller : Caller S) (r : S.Index)

/-- The factory of the name `n` requests every required name, ends with the first failure, and else
with a new object. -/
def construct (n : Name) : List Name → Script S (Except Error S.Object)
  | [] => .make (d.value n) fun o => .done (.ok o)
  | m :: rest => .demand r m (d.build m) fun
    | .error e => .done (.error e)
    | .ok _ => construct n rest

/-- The caller's factories are those of the family. -/
def Implemented : Prop :=
  ∀ n ∈ d.names, caller.factory (d.build n) = d.construct r n (d.requires n)

/-- A registry while the active names are being created, in a run that began with the registry `g₀`
and has bound the names in `order` since. -/
structure Stage (g₀ : Registry S) (active order : List Name) (g : Registry S) : Prop where
  live : g.inDestruction = false
  observer : g.observer = g₀.observer
  tracked : ∀ m, m ∉ g.excluded
  marked : ∀ m, m ∈ g.inCreation ↔ m ∈ active
  bound : ∀ m, (g.object? m).isSome ↔ m ∈ order
  /-- A bound name is not being created. -/
  ended : ∀ m ∈ order, m ∉ active
  sorted : d.Sorted order
  nodup : order.Nodup
  /-- The names are listed as they were bound. -/
  known : g.knownNames = g₀.knownNames ++ order.filter (· ∉ g₀.knownNames)

/-- What comes of requests for the targets while the active names are being created: the targets are
bound, by the factories of names that they need, or there is a failure that is due to a cycle. -/
inductive Outcome (g₀ : Registry S) (active targets : List Name) (w w' : World S) :
    Except Error S.Object → Prop
  | bound {o : S.Object} {order log : List Name} (stage : d.Stage g₀ active order (w'.registry r))
      (listed : ∀ m ∈ targets, m ∈ order)
      (seen : w'.seen (Entry.creation? r) = w.seen (Entry.creation? r) ++ log)
      (gains : (w.registry r).Gains (w'.registry r) log)
      (needs : ∀ k ∈ log, ∃ m ∈ targets, d.Needs m k) : Outcome g₀ active targets w w' (.ok o)
  | failed {e : Error} {order : List Name} {m : Name}
      (stage : d.Stage g₀ active order (w'.registry r)) (target : m ∈ targets)
      (fails : d.Fails active m e) : Outcome g₀ active targets w w' (.error e)

variable {d caller r} {g₀ g : Registry S} {active order : List Name} {n m : Name} {w : World S}

namespace Stage

lemma start (h : g.AtRest) : d.Stage g [] [] g where
  live := h.live
  observer := rfl
  tracked := h.tracked
  marked m := by simp [h.marked m]
  bound m := by simp [h.bound m]
  ended _ _ := List.not_mem_nil
  sorted := .nil
  nodup := List.nodup_nil
  known := (List.append_nil _).symm

lemma enter (h : d.Stage g₀ active order g) (hn : g.object? n = none) :
    d.Stage g₀ (n :: active) order (g.entering n) where
  live := h.live
  observer := h.observer
  tracked := h.tracked
  marked m := by
    show m ∈ g.inCreation.add n ↔ _
    rw [NameSet.mem_add, h.marked, List.mem_cons]
  bound := h.bound
  ended m hm hmem := by
    rcases List.mem_cons.mp hmem with rfl | hmem
    · have hsome := (h.bound m).mpr hm
      rw [hn] at hsome
      cases hsome
    · exact h.ended m hm hmem
  sorted := h.sorted
  nodup := h.nodup
  known := h.known

/-- The marks are as before when a creation has ended. -/
lemma leave (h : d.Stage g₀ (n :: active) order g) (hn : n ∉ active) (opened : Bool) :
    d.Stage g₀ active order (g.leaving n opened) where
  live := h.live
  observer := h.observer
  tracked := h.tracked
  marked m := by
    show m ∈ g.inCreation.erase n ↔ _
    rw [NameMap.mem_erase, h.marked, List.mem_cons]
    constructor
    · rintro ⟨hne, hmem⟩
      exact hmem.resolve_left hne
    · intro hmem
      exact ⟨fun e => hn (e ▸ hmem), Or.inr hmem⟩
  bound := h.bound
  ended m hm hmem := h.ended m hm (List.mem_cons_of_mem n hmem)
  sorted := h.sorted
  nodup := h.nodup
  known := h.known

/-- A name is bound when all that it requires is. -/
lemma bind (h : d.Stage g₀ active order g) (hn : n ∉ active) (hbound : n ∉ order)
    (hrequires : ∀ m ∈ d.requires n, m ∈ order) (o : S.Object) :
    d.Stage g₀ active (order ++ [n]) (g.bind n o) where
  live := h.live
  observer := h.observer
  tracked := h.tracked
  marked := h.marked
  bound m := by
    have hobject : (g.bind n o).object? m = if m = n then some o else g.object? m :=
      NameMap.get?_insert g.objects n m o
    rw [hobject, List.mem_append, List.mem_singleton, ← h.bound]
    by_cases hne : m = n <;> simp [hne]
  ended m hm := by
    rcases List.mem_append.mp hm with hm | hm
    · exact h.ended m hm
    · exact List.mem_singleton.mp hm ▸ hn
  sorted := h.sorted.concat hrequires
  nodup := by
    refine h.nodup.append (List.nodup_singleton n) fun m hm hm' => hbound ?_
    exact List.mem_singleton.mp hm' ▸ hm
  known := by
    have hknown : (g.bind n o).knownNames =
        if n ∈ g.knownNames then g.knownNames else g.knownNames ++ [n] :=
      NameSet.names_add g.known n
    have hmem : n ∈ g.knownNames ↔ n ∈ g₀.knownNames := by
      rw [h.known, List.mem_append, List.mem_filter]
      exact or_iff_left fun hn' => hbound hn'.1
    rw [hknown, List.filter_append]
    by_cases hn' : n ∈ g₀.knownNames
    · rw [if_pos (hmem.mpr hn'), h.known]
      simp [hn']
    · rw [if_neg (mt hmem.mp hn'), h.known]
      simp [hn']

end Stage

/-! ### Requests -/

/-- A factory requests what it requires in order, up to the first failure. -/
lemma exists_ends_construct {left : ℕ}
    (hobtain : ∀ m ∈ d.names, ∀ (w : World S) (order : List Name),
      d.Stage g₀ active order (w.registry r) → d.unstarted (w.registry r) active ≤ left →
      ∃ answer w', Ends caller (Script.obtain r m (d.build m)) w answer w' ∧
        d.Outcome r g₀ active [m] w w' answer)
    {ms : List Name} (hms : ∀ m ∈ ms, m ∈ d.names) (hs : d.Stage g₀ active order (w.registry r))
    (hleft : d.unstarted (w.registry r) active ≤ left) :
    ∃ answer w', Ends caller (d.construct r n ms) w answer w' ∧
      d.Outcome r g₀ active ms w w' answer := by
  induction ms generalizing w order with
  | nil =>
      refine ⟨.ok (w.make (d.value n)).2, (w.make (d.value n)).1, Reaches.next _, ?_⟩
      have hnone : ∀ m ∈ ([] : List Name), m ∈ order := fun m hm => absurd hm List.not_mem_nil
      exact .bound hs hnone (List.append_nil _).symm (.refl _) fun k hk =>
        absurd hk List.not_mem_nil
  | cons m ms ih =>
      obtain ⟨answer₁, w₁, hends₁, hout₁⟩ := hobtain m (hms m List.mem_cons_self) w order hs hleft
      cases hout₁ with
      | failed stage target fails =>
          obtain rfl := List.mem_singleton.mp target
          exact ⟨_, w₁, hends₁.demand (Ends.done _ w₁), .failed stage List.mem_cons_self fails⟩
      | @bound o order₁ log₁ stage₁ bound₁ seen₁ gains₁ needs₁ =>
          obtain ⟨answer, w', hends, hout⟩ := ih (fun k hk => hms k (List.mem_cons_of_mem m hk))
            stage₁ ((Family.unstarted_le_of_gains gains₁ active).trans hleft)
          refine ⟨answer, w', hends₁.demand hends, ?_⟩
          cases hout with
          | failed stage target fails =>
              exact .failed stage (List.mem_cons_of_mem m target) fails
          | bound stage bound seen gains needs =>
              refine .bound stage (fun k hk => ?_) ?_ (gains₁.trans gains) fun k hk => ?_
              · rcases List.mem_cons.mp hk with rfl | hk
                · have hsome := (stage₁.bound k).mpr (bound₁ k List.mem_cons_self)
                  exact (stage.bound k).mp (gains.isSome hsome)
                · exact bound k hk
              · rw [seen, seen₁, List.append_assoc]
              · rcases List.mem_append.mp hk with hk | hk
                · obtain ⟨j, hj, hneed⟩ := needs₁ k hk
                  exact ⟨j, List.mem_singleton.mp hj ▸ List.mem_cons_self, hneed⟩
                · obtain ⟨j, hj, hneed⟩ := needs k hk
                  exact ⟨j, List.mem_cons_of_mem m hj, hneed⟩

/-- A failure that is due to a cycle is wrapped by the creation around it. -/
lemma settle_of_fails {cause : Error} (h : d.Fails active m cause) (g : Registry S) (n : Name)
    (reported : List Error) : g.settle n reported (.error cause) =
      { registry := g, answer := .error (.creationFailed n cause reported) } := by
  cases h <;> rfl

/-- A name that is neither bound nor being created is created, or fails with what it requires. -/
lemma exists_ends_of_construct (himpl : d.Implemented caller r)
    (hobs : QuietlyObserved caller r (Entry.creation? r) g₀) (hn : n ∈ d.names)
    (hactive : n ∉ active) (hbound : (w.registry r).object? n = none)
    (hs : d.Stage g₀ active order (w.registry r))
    (hconstruct : ∀ w₁ : World S, w₁.registry r = (w.registry r).entering n →
      ∃ answer w₂, Ends caller (d.construct r n (d.requires n)) w₁ answer w₂ ∧
        d.Outcome r g₀ (n :: active) (d.requires n) w₁ w₂ answer) :
    ∃ answer w', Ends caller (Script.obtain r n (d.build n)) w answer w' ∧
      d.Outcome r g₀ active [n] w w' answer := by
  have hunmarked : n ∉ (w.registry r).inCreation := fun h => hactive ((hs.marked n).mp h)
  let w₁ := w.creating r n (d.build n) ((w.registry r).entering n)
  have hr₁ : w₁.registry r = (w.registry r).entering n := World.registry_creating w n _ _
  have hseen₁ : w₁.seen (Entry.creation? r) = w.seen (Entry.creation? r) ++ [n] := by
    rw [World.seen_creating]
    simp [Entry.creation?, List.filterMap_cons]
  obtain ⟨result, w₂, hends₂, hout⟩ := hconstruct w₁ hr₁
  have hfactory : Ends caller (caller.factory (d.build n)) w₁ result w₂ := by
    rw [himpl n hn]
    exact hends₂
  have hstage : ∃ order, d.Stage g₀ (n :: active) order (w₂.registry r) := by
    cases hout with
    | bound stage => exact ⟨_, stage⟩
    | failed stage => exact ⟨_, stage⟩
  obtain ⟨order₂, hs₂⟩ := hstage
  obtain ⟨opened, reported, w', hends, hw'⟩ := exists_ends_create hbound hs.live (hs.tracked n)
    hunmarked hfactory (hs₂.tracked n) ((hs₂.marked n).mpr List.mem_cons_self)
    (hobs.of_observer hs₂.observer)
  refine ⟨_, w', hends, ?_⟩
  cases hout with
  | @failed e _ m stage target fails =>
      rw [settle_of_fails fails] at hw' ⊢
      have hr' : w'.registry r = (w₂.registry r).leaving n opened := hw'.registry
      exact .failed (hr' ▸ stage.leave hactive opened) List.mem_cons_self
        (.nested reported target fails)
  | @bound o order₂ log stage bound seen gains needs =>
      have hr' : w'.registry r = ((w₂.registry r).leaving n opened).bind n o := hw'.registry
      have hunbound : n ∉ order₂ := fun h => stage.ended n h List.mem_cons_self
      have hnone : (w₂.registry r).object? n = none := by
        by_contra hne
        exact hunbound ((stage.bound n).mp (Option.ne_none_iff_isSome.mp hne))
      have hentering : ((w.registry r).entering n).Gains (w₂.registry r) log := hr₁ ▸ gains
      have hleaving : (w.registry r).Gains ((w₂.registry r).leaving n opened) log :=
        ⟨hentering.keeps, hentering.gained, hentering.once⟩
      have hstage' := (stage.leave hactive opened).bind hactive hunbound bound o
      refine .bound (hr' ▸ hstage') (fun m hm => ?_) ?_ (hr' ▸ hleaving.bind hnone o) ?_
      · exact List.mem_append_right _ (List.mem_singleton.mp hm ▸ List.mem_cons_self)
      · rw [hw'.seen, seen, hseen₁]
        simp [Registry.Change.lines, Registry.settle, Entry.creation?]
      · intro k hk
        refine ⟨n, List.mem_cons_self, ?_⟩
        rcases List.mem_cons.mp hk with rfl | hk
        · exact ReflTransGen.refl
        · obtain ⟨m, hm, hneed⟩ := needs k hk
          exact ReflTransGen.head hm hneed

/-- Every request ends, whatever is being created already: every creation leaves fewer names to be
started. -/
lemma exists_ends_outcome (himpl : d.Implemented caller r)
    (hobs : QuietlyObserved caller r (Entry.creation? r) g₀) (hn : n ∈ d.names)
    (hs : d.Stage g₀ active order (w.registry r)) :
    ∃ answer w', Ends caller (Script.obtain r n (d.build n)) w answer w' ∧
      d.Outcome r g₀ active [n] w w' answer := by
  induction hleft : d.unstarted (w.registry r) active using Nat.strong_induction_on
    generalizing active n w order with
  | _ left ih =>
      cases hbound : (w.registry r).object? n with
      | some o =>
          have hmem : n ∈ order := (hs.bound n).mp (by rw [hbound]; rfl)
          refine ⟨_, _, ends_obtain_answered (Registry.demand_of_bound hbound), ?_⟩
          refine .bound hs (fun m hm => List.mem_singleton.mp hm ▸ hmem) ?_ (.refl _)
            fun k hk => absurd hk List.not_mem_nil
          rw [World.seen_log]
          rfl
      | none =>
          by_cases hactive : n ∈ active
          · have hdemand := Registry.demand_of_inCreation hbound hs.live (hs.tracked n)
              ((hs.marked n).mpr hactive)
            exact ⟨_, _, ends_obtain_answered hdemand,
              .failed hs List.mem_cons_self (.again hactive)⟩
          · refine exists_ends_of_construct himpl hobs hn hactive hbound hs fun w₁ hr₁ => ?_
            have hs₁ : d.Stage g₀ (n :: active) order (w₁.registry r) := hr₁ ▸ hs.enter hbound
            have hlt : d.unstarted (w₁.registry r) (n :: active) < left := by
              have hcons : d.unstarted (w.registry r) (n :: active) <
                  d.unstarted (w.registry r) active := Family.unstarted_cons_lt hn hbound hactive
              have hsame : d.unstarted (w₁.registry r) (n :: active) =
                  d.unstarted (w.registry r) (n :: active) := by rw [hr₁]; rfl
              omega
            exact exists_ends_construct
              (fun m hm w₂ order₂ hs₂ hle => ih _ (lt_of_le_of_lt hle hlt) hm hs₂ rfl)
              (d.closed n hn) hs₁ le_rfl

/-! ### Cycles are detected exactly -/

variable (d r) in
/-- From `w` to `w'` the name `n` was created with all that it needs. -/
structure Completes (n : Name) (w w' : World S) : Prop where
  /-- The factories of the names that `n` needs were started, each once, and no others. -/
  started : ∃ log, w'.seen (Entry.creation? r) = w.seen (Entry.creation? r) ++ log ∧ log.Nodup ∧
    ∀ m, m ∈ log ↔ d.Needs n m
  bound : ∀ m, ((w'.registry r).object? m).isSome ↔ d.Needs n m
  /-- The names that were not known before are listed after the others, requirements first. -/
  listed : ∃ order, d.Sorted order ∧ order.Nodup ∧ (∀ m, m ∈ order ↔ d.Needs n m) ∧
    (w'.registry r).knownNames =
      (w.registry r).knownNames ++ order.filter (· ∉ (w.registry r).knownNames)

variable (d) in
/-- The failure of the name `n` tells of a cycle: the creations that failed lead from requirement to
requirement to the name that was asked for again, which is one of them. -/
def TellsCycle (n : Name) (e : Error) : Prop :=
  e.creations.head? = some n ∧ e.creations.IsChain d.Requires ∧
    ∃ last x, e.creations.getLast? = some last ∧ d.Requires last x ∧ x ∈ e.creations ∧
      e.rootCause = .inCreation x

/-- **Cycles are detected exactly**: in a registry at rest, the creation of a name ends, and nothing
is being created then. It succeeds exactly when the name needs no cycle. -/
theorem exists_ends_iff_acyclic (himpl : d.Implemented caller r)
    (hobs : QuietlyObserved caller r (Entry.creation? r) (w.registry r))
    (hrest : (w.registry r).AtRest) (hn : n ∈ d.names) :
    ∃ answer w', Ends caller (Script.obtain r n (d.build n)) w answer w' ∧
      ((∃ o, answer = .ok o) ↔ ∀ m, d.Needs n m → ¬ TransGen d.Requires m m) ∧
      (∀ o, answer = .ok o → d.Completes r n w w') ∧
      (∀ e, answer = .error e → d.TellsCycle n e) ∧
      ∀ m, m ∉ (w'.registry r).inCreation := by
  obtain ⟨answer, w', hends, hout⟩ := exists_ends_outcome himpl hobs hn (Stage.start hrest)
  refine ⟨answer, w', hends, ?_⟩
  cases hout with
  | @failed e order m stage target fails =>
      obtain rfl := List.mem_singleton.mp target
      refine ⟨⟨fun ⟨_, ho⟩ => (nomatch ho), fun hacyclic => ?_⟩, fun _ ho => (nomatch ho),
        fun e' he' => ?_, fun k hk => absurd ((stage.marked k).mp hk) List.not_mem_nil⟩
      · obtain ⟨x, hneed, hx | hcycle⟩ := fails.cycle
        · cases hx
        · exact absurd hcycle (hacyclic x hneed)
      · cases he'
        rcases fails.creations with ⟨hmem, -⟩ | ⟨hhead, hchain, last, x, hlast, hx, hroot, hmem⟩
        · cases hmem
        · exact ⟨hhead, hchain, last, x, hlast, hx, hmem.resolve_right List.not_mem_nil, hroot⟩
  | @bound o order log stage listed seen gains needs =>
      have horder : ∀ m, m ∈ order ↔ m ∈ log := by
        intro m
        rw [← stage.bound, gains.gained, hrest.bound m]
        exact (and_iff_right rfl).symm
      have hneeds : ∀ m, m ∈ order ↔ d.Needs n m := by
        intro m
        refine ⟨fun hm => ?_, stage.sorted.mem_of_needs (listed n List.mem_cons_self)⟩
        obtain ⟨k, hk, hneed⟩ := needs m ((horder m).mp hm)
        exact List.mem_singleton.mp hk ▸ hneed
      refine ⟨⟨fun _ m hm => ?_, fun _ => ⟨o, rfl⟩⟩, fun _ _ => ?_, fun _ he => (nomatch he),
        fun k hk => absurd ((stage.marked k).mp hk) List.not_mem_nil⟩
      · exact stage.sorted.not_transGen stage.nodup ((hneeds m).mpr hm)
      · exact ⟨⟨log, seen, gains.once, fun m => (horder m).symm.trans (hneeds m)⟩,
          fun m => (stage.bound m).trans (hneeds m),
          ⟨order, stage.sorted, stage.nodup, hneeds, stage.known⟩⟩

end Construction

/-! ### Two names that require each other -/

/-- One registry, whose factories are known by the names that they are for. -/
def loopSetup : Setup := ⟨.basic, 1, Name, Empty, Empty, Unit, Empty⟩

/-- The client requires the server, and the server requires the client. -/
def loop : Construction loopSetup where
  names := {"client", "server"}
  requires n := if n = "server" then ["client"] else ["server"]
  closed n hn m hm := by
    split at hm
    · rw [List.mem_singleton.mp hm]
      decide
    · rw [List.mem_singleton.mp hm]
      decide
  value := .text
  build n := n

/-- The number of the registry. -/
def loopIndex : loopSetup.Index := Fin.mk 0 Nat.one_pos

/-- The factories of the client and the server. -/
def loopCaller : Caller loopSetup where
  factory n := loop.construct loopIndex n (loop.requires n)
  disposer d := d.elim
  observer o _ := o.elim

/-- The empty registry as the only one of a world. -/
def loopWorld : World loopSetup := ⟨#v[{}], (), 0, []⟩

/-- The client is not created, and the failure tells why. -/
theorem exists_ends_iff_acyclic_loop :
    loop.Implemented loopCaller loopIndex ∧
      QuietlyObserved loopCaller loopIndex (Entry.creation? loopIndex)
        (loopWorld.registry loopIndex) ∧
      (loopWorld.registry loopIndex).AtRest ∧ "client" ∈ loop.names ∧
      ∃ e w', Ends loopCaller (Script.obtain loopIndex "client" (loop.build "client")) loopWorld
          (.error e) w' ∧ loop.TellsCycle "client" e := by
  have himpl : loop.Implemented loopCaller loopIndex := fun _ _ => rfl
  have hobs : QuietlyObserved loopCaller loopIndex (Entry.creation? loopIndex)
      (loopWorld.registry loopIndex) := fun o => o.elim
  have hrest : (loopWorld.registry loopIndex).AtRest :=
    ⟨fun _ => rfl, fun _ => rfl, fun _ => List.not_mem_nil, fun _ => List.not_mem_nil, rfl⟩
  have hn : "client" ∈ loop.names := by decide
  have hcycle : TransGen loop.Requires "client" "client" := by
    have hclient : loop.Requires "client" "server" := List.mem_singleton.mpr rfl
    have hserver : loop.Requires "server" "client" := List.mem_singleton.mpr rfl
    exact (TransGen.single hclient).tail hserver
  obtain ⟨answer, w', hends, hiff, -, htells, -⟩ :=
    Construction.exists_ends_iff_acyclic himpl hobs hrest hn
  cases answer with
  | ok o => exact absurd hcycle (hiff.mp ⟨o, rfl⟩ "client" ReflTransGen.refl)
  | error e => exact ⟨himpl, hobs, hrest, hn, e, w', hends, htells e rfl⟩

end InstanceRegistry
