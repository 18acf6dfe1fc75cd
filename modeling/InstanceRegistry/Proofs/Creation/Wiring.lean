import InstanceRegistry.Proofs.Creation.Family

/-!
Circular wiring. Names may require each other, and themselves, when every factory installs an early
factory before it asks for anything: whatever is asked for while it is under construction is handed
out early.

* `Wiring`, `Wiring.wire`: a family of names with such factories;
* `Wiring.Stage`: a registry while some of the names are being created;
* `Wiring.Advances`: what the creations from one moment to another bind, start and obtain;
* `Wiring.exists_ends_completes`: the creation of a name succeeds, and binds what the name needs.
-/

namespace InstanceRegistry

variable {S : Setup}

/-- A finite family of names, each with its object, its factory and its early factory, and the notes
that the factories make of the references that they obtain. -/
structure Wiring (S : Setup) extends Family where
  object : Name → S.Object
  build : Name → S.Factory
  early : Name → S.Factory
  obtained : Name → S.Object → S.Note
  obtained? : S.Note → Option (Name × S.Object)
  obtained?_obtained : ∀ m o, obtained? (obtained m o) = some (m, o)

namespace Wiring

variable (d : Wiring S) (caller : Caller S) (r : S.Index)

/-- The factory of the name `n` takes a reference to every required name, or else has it created,
and ends with its own object. -/
def wire (n : Name) : List Name → Script S (Except Error S.Object)
  | [] => .done (.ok (d.object n))
  | m :: rest => .find r m true fun
    | .error e => .done (.error e)
    | .ok (some o) => .note (d.obtained m o) (wire n rest)
    | .ok none => .demand r m (d.build m) fun
      | .error e => .done (.error e)
      | .ok o => .note (d.obtained m o) (wire n rest)

/-- The caller's factories are those of the family: an early factory hands out the object, and a
factory installs the early one first. -/
structure Implemented : Prop where
  early : ∀ n ∈ d.names, caller.factory (d.early n) = .done (.ok (d.object n))
  build : ∀ n ∈ d.names, caller.factory (d.build n) =
    .call r (.provideEarly n (d.early n)) fun _ => d.wire r n (d.requires n)

/-- What a line of the journal says of the family: that a creation starts its factory, or that a
reference was obtained. -/
def view : Entry S → Option (Name ⊕ Name × S.Object)
  | .started s name (.creation _) => if s = r then some (.inl name) else none
  | .note content => (d.obtained? content).map .inr
  | _ => none

/-- The names whose factories were started. -/
def started (log : List (Name ⊕ Name × S.Object)) : List Name := log.filterMap Sum.getLeft?

/-- A registry while the active names are being created, in a run that began with the registry
`g₀`. -/
structure Stage (g₀ : Registry S) (active : List Name) (g : Registry S) : Prop where
  live : g.inDestruction = false
  observer : g.observer = g₀.observer
  tracked : ∀ m, m ∉ g.excluded
  marked : ∀ m, m ∈ g.inCreation ↔ m ∈ active
  /-- A name is bound to its own object, when its creation has ended. -/
  bound : ∀ m o, g.object? m = some o → o = d.object m ∧ m ∉ active
  /-- What a bound name requires is bound or being created. -/
  served : ∀ m, (g.object? m).isSome → ∀ k ∈ d.requires m, (g.object? k).isSome ∨ k ∈ active
  /-- A name that is being created has been handed out, or its early factory is there. -/
  exposed : ∀ m ∈ active, g.earlyReferences.get? m = some (d.object m) ∨
    g.earlyReferences.get? m = none ∧ g.earlyFactories.get? m = some (d.early m)
  factories : ∀ m, m ∉ active → g.earlyFactories.get? m = none
  references : ∀ m, m ∉ active → g.earlyReferences.get? m =
    if (g.object? m).isSome then none else g₀.earlyReferences.get? m

/-- What happens from `w` to `w'` while the active names are being created. -/
structure Advances (g₀ : Registry S) (active : List Name) (w w' : World S)
    (log : List (Name ⊕ Name × S.Object)) : Prop where
  stage : d.Stage g₀ active (w'.registry r)
  seen : w'.seen (d.view r) = w.seen (d.view r) ++ log
  /-- The names that are bound are those whose factories were started. -/
  gains : (w.registry r).Gains (w'.registry r) (started log)
  /-- Every reference is the object of its name. -/
  obtained : ∀ m o, .inr (m, o) ∈ log → o = d.object m

variable {d caller r} {g₀ g : Registry S} {active : List Name} {n m : Name}

/-! ### Stages -/

namespace Stage

lemma start (h : g.AtRest) : d.Stage g [] g where
  live := h.live
  observer := rfl
  tracked := h.tracked
  marked m := by simp [h.marked m]
  bound m o hm := by
    rw [h.bound m] at hm
    cases hm
  served m hm := by
    rw [h.bound m] at hm
    cases hm
  exposed m hm := absurd hm List.not_mem_nil
  factories m _ := h.installed m
  references m _ := by
    rw [h.bound m]
    rfl

lemma unbound (h : d.Stage g₀ active g) (hm : m ∈ active) : g.object? m = none := by
  cases ho : g.object? m with
  | none => rfl
  | some o => exact absurd hm (h.bound m o ho).2

/-- The factory of a name starts, and installs the early factory. -/
lemma enter (h : d.Stage g₀ active g) (hn : g.object? n = none) :
    d.Stage g₀ (n :: active) ((g.entering n).provideEarly n (d.early n)) := by
  have hg : (g.entering n).provideEarly n (d.early n) =
      { g.entering n with
        earlyFactories := g.earlyFactories.insert n (d.early n)
        earlyReferences := g.earlyReferences.erase n
        known := g.known.add n } := by
    have hc : (g.entering n).contains n = false := by
      rw [Bool.eq_false_iff, ne_eq, Registry.contains_iff_isSome]
      exact fun hs => Option.isSome_iff_ne_none.mp hs hn
    rw [Registry.provideEarly, hc]
    rfl
  rw [hg]
  refine ⟨h.live, h.observer, h.tracked, fun m => ?_, fun m o hm => ?_, fun m hm k hk => ?_,
    fun m hm => ?_, fun m hm => ?_, fun m hm => ?_⟩
  · show m ∈ g.inCreation.add n ↔ _
    rw [NameSet.mem_add, h.marked, List.mem_cons]
  · obtain ⟨ho, hmem⟩ := h.bound m o hm
    refine ⟨ho, fun hcons => ?_⟩
    rcases List.mem_cons.mp hcons with rfl | hmem'
    · exact absurd (hn.symm.trans hm) (by simp)
    · exact hmem hmem'
  · rcases h.served m hm k hk with hs | hs
    · exact Or.inl hs
    · exact Or.inr (List.mem_cons_of_mem n hs)
  · show (g.earlyReferences.erase n).get? m = _ ∨ (g.earlyReferences.erase n).get? m = _ ∧
      (g.earlyFactories.insert n (d.early n)).get? m = _
    rw [NameMap.get?_erase, NameMap.get?_insert]
    by_cases hne : m = n
    · subst hne
      simp
    · rw [if_neg hne, if_neg hne]
      exact h.exposed m ((List.mem_cons.mp hm).resolve_left hne)
  · obtain ⟨hne, hmem⟩ : m ≠ n ∧ m ∉ active := by simpa using hm
    show (g.earlyFactories.insert n (d.early n)).get? m = none
    rw [NameMap.get?_insert, if_neg hne]
    exact h.factories m hmem
  · obtain ⟨hne, hmem⟩ : m ≠ n ∧ m ∉ active := by simpa using hm
    show (g.earlyReferences.erase n).get? m = _
    rw [NameMap.get?_erase, if_neg hne]
    exact h.references m hmem

/-- The factory of a name ends, when what the name requires is bound or being created. -/
lemma leave (h : d.Stage g₀ (n :: active) g) (hn : n ∉ active)
    (hserved : ∀ k ∈ d.requires n, (g.object? k).isSome ∨ k ∈ n :: active) (opened : Bool) :
    d.Stage g₀ active ((g.leaving n opened).bind n (d.object n)) := by
  have hobject : ∀ m, ((g.leaving n opened).bind n (d.object n)).object? m =
      if m = n then some (d.object n) else g.object? m :=
    fun m => NameMap.get?_insert g.objects n m _
  have hbound : ∀ k, (g.object? k).isSome ∨ k ∈ n :: active →
      (((g.leaving n opened).bind n (d.object n)).object? k).isSome ∨ k ∈ active := by
    intro k hk
    rw [hobject]
    by_cases hne : k = n
    · rw [if_pos hne]
      exact Or.inl rfl
    · rw [if_neg hne]
      exact hk.imp_right fun hmem => (List.mem_cons.mp hmem).resolve_left hne
  refine ⟨h.live, h.observer, h.tracked, fun m => ?_, fun m o hm => ?_, fun m hm k hk => ?_,
    fun m hm => ?_, fun m hm => ?_, fun m hm => ?_⟩
  · show m ∈ g.inCreation.erase n ↔ _
    rw [NameMap.mem_erase, h.marked, List.mem_cons]
    constructor
    · rintro ⟨hne, hmem⟩
      exact hmem.resolve_left hne
    · intro hmem
      exact ⟨fun e => hn (e ▸ hmem), Or.inr hmem⟩
  · rw [hobject] at hm
    by_cases hne : m = n
    · rw [if_pos hne, Option.some.injEq] at hm
      exact ⟨hne ▸ hm.symm, hne ▸ hn⟩
    · rw [if_neg hne] at hm
      obtain ⟨ho, hmem⟩ := h.bound m o hm
      exact ⟨ho, fun hm' => hmem (List.mem_cons_of_mem n hm')⟩
  · refine hbound k ?_
    by_cases hne : m = n
    · exact hserved k (hne ▸ hk)
    · rw [hobject, if_neg hne] at hm
      exact h.served m hm k hk
  · have hne : m ≠ n := fun e => hn (e ▸ hm)
    show (g.earlyReferences.erase n).get? m = _ ∨ (g.earlyReferences.erase n).get? m = _ ∧
      (g.earlyFactories.erase n).get? m = _
    rw [NameMap.get?_erase, NameMap.get?_erase, if_neg hne, if_neg hne]
    exact h.exposed m (List.mem_cons_of_mem n hm)
  · show (g.earlyFactories.erase n).get? m = none
    rw [NameMap.get?_erase]
    by_cases hne : m = n
    · rw [if_pos hne]
    · rw [if_neg hne]
      exact h.factories m (List.not_mem_cons_of_ne_of_not_mem hne hm)
  · show (g.earlyReferences.erase n).get? m = _
    rw [NameMap.get?_erase, hobject]
    by_cases hne : m = n
    · rw [if_pos hne, if_pos hne]
      rfl
    · rw [if_neg hne, if_neg hne]
      exact h.references m (List.not_mem_cons_of_ne_of_not_mem hne hm)

/-- The early factory of a name hands out the object. -/
lemma expose (h : d.Stage g₀ active g) (hm : m ∈ active) :
    d.Stage g₀ active
      { g with
        earlyFactories := g.earlyFactories.erase m
        earlyReferences := g.earlyReferences.insert m (d.object m) } := by
  refine ⟨h.live, h.observer, h.tracked, h.marked, h.bound, h.served, fun k hk => ?_,
    fun k hk => ?_, fun k hk => ?_⟩
  · show (g.earlyReferences.insert m (d.object m)).get? k = _ ∨ _ ∧
      (g.earlyFactories.erase m).get? k = _
    rw [NameMap.get?_insert, NameMap.get?_erase]
    by_cases hne : k = m
    · rw [if_pos hne, hne]
      exact Or.inl rfl
    · rw [if_neg hne, if_neg hne]
      exact h.exposed k hk
  · have hne : k ≠ m := fun e => hk (e ▸ hm)
    show (g.earlyFactories.erase m).get? k = none
    rw [NameMap.get?_erase, if_neg hne]
    exact h.factories k hk
  · have hne : k ≠ m := fun e => hk (e ▸ hm)
    show (g.earlyReferences.insert m (d.object m)).get? k = _
    rw [NameMap.get?_insert, if_neg hne]
    exact h.references k hk

end Stage

/-! ### Advances -/

lemma started_append (l₁ l₂ : List (Name ⊕ Name × S.Object)) :
    started (l₁ ++ l₂) = started l₁ ++ started l₂ :=
  List.filterMap_append

namespace Advances

variable {w w₁ w₂ : World S} {log l₁ l₂ : List (Name ⊕ Name × S.Object)}

lemma refl (h : d.Stage g₀ active (w.registry r)) : d.Advances r g₀ active w w [] where
  stage := h
  seen := (List.append_nil _).symm
  gains := .refl _
  obtained _ _ h := absurd h List.not_mem_nil

lemma trans (h : d.Advances r g₀ active w w₁ l₁) (h' : d.Advances r g₀ active w₁ w₂ l₂) :
    d.Advances r g₀ active w w₂ (l₁ ++ l₂) where
  stage := h'.stage
  seen := by rw [h'.seen, h.seen, List.append_assoc]
  gains := by
    rw [started_append]
    exact h.gains.trans h'.gains
  obtained m o hmem := by
    rcases List.mem_append.mp hmem with hmem | hmem
    · exact h.obtained m o hmem
    · exact h'.obtained m o hmem

/-- A reference is noted. -/
lemma note (h : d.Stage g₀ active (w.registry r)) (m : Name) :
    d.Advances r g₀ active w (w.write (.note (d.obtained m (d.object m))))
      [.inr (m, d.object m)] where
  stage := h
  seen := by
    rw [World.seen_write]
    simp [view, d.obtained?_obtained]
  gains := .refl _
  obtained k o hmem := by
    obtain ⟨rfl, rfl⟩ : k = m ∧ o = d.object m := by simpa using hmem
    rfl

end Advances

/-! ### Creations -/

variable (d caller r) in
/-- The creation of the name succeeds while the active names are being created, and starts only
factories of names that the name needs. -/
def Creates (g₀ : Registry S) (active : List Name) (n : Name) (w : World S) : Prop :=
  ∃ w' log, Ends caller (Script.obtain r n (d.build n)) w (.ok (d.object n)) w' ∧
    d.Advances r g₀ active w w' log ∧ ((w'.registry r).object? n).isSome ∧
    ∀ k ∈ started log, d.Needs n k

variable {w : World S}

/-- A reference to a name that is being created is handed out by its early factory. -/
lemma exists_ends_lookup_early (himpl : d.Implemented caller r)
    (hobs : QuietlyObserved caller r (d.view r) g₀) (hs : d.Stage g₀ active (w.registry r))
    (hm : m ∈ d.names) (hactive : m ∈ active)
    (href : (w.registry r).earlyReferences.get? m = none)
    (hfactory : (w.registry r).earlyFactories.get? m = some (d.early m)) :
    ∃ w₁, Ends caller (Script.lookup r m true) w (.ok (some (d.object m))) w₁ ∧
      d.Advances r g₀ active w w₁ [] := by
  let taken : Registry S :=
    { w.registry r with earlyFactories := (w.registry r).earlyFactories.erase m }
  let w₀ := (w.setRegistry r taken).write (.started r m (.exposure (d.early m)))
  have hlookup : (w.registry r).lookup m true = .expose (d.early m) taken :=
    Registry.lookup_of_factory (hs.unbound hactive) ((hs.marked m).mpr hactive) href hfactory
  have hw₀ : w₀.registry r = taken := World.registry_setRegistry_self w r taken
  have hseen₀ : w₀.seen (d.view r) = w.seen (d.view r) :=
    (World.seen_write _ _).trans (List.append_nil _)
  have hfactory : Ends caller (caller.factory (d.early m)) w₀ (.ok (d.object m)) w₀ := by
    rw [himpl.early m hm]
    exact Ends.done _ w₀
  have hstage := hs.expose hactive
  have hq : QuietlyObserved caller r (d.view r)
      ((w₀.registry r).finishExposure m (d.early m) (.ok (d.object m))).registry := by
    rw [hw₀]
    exact hobs.of_observer hstage.observer
  obtain ⟨w₁, hends, hw₁⟩ := exists_ends_lookup_expose hlookup hfactory hq
  have hr₁ : w₁.registry r = { taken with
      earlyReferences := taken.earlyReferences.insert m (d.object m) } := by
    rw [hw₁.registry, hw₀]
    rfl
  refine ⟨w₁, hends, ?_, ?_, ?_, fun _ _ h => absurd h List.not_mem_nil⟩
  · rw [hr₁]
    exact hstage
  · rw [hw₁.seen, hseen₀]
    rfl
  · rw [hr₁]
    exact (Registry.Gains.refl (w.registry r)).of_object? fun _ => rfl

/-- A factory takes a reference to a name: to the finished object, or to the object of a name that
is being created, or else to one that is created now. -/
lemma exists_ends_reference (himpl : d.Implemented caller r)
    (hobs : QuietlyObserved caller r (d.view r) g₀) (hs : d.Stage g₀ active (w.registry r))
    (hm : m ∈ d.names)
    (hcreate : m ∉ active → (w.registry r).object? m = none → d.Creates caller r g₀ active m w) :
    ∃ w₁ log, (∀ rest b w₂,
        Ends caller (.note (d.obtained m (d.object m)) (d.wire r n rest)) w₁ b w₂ →
        Ends caller (d.wire r n (m :: rest)) w b w₂) ∧
      d.Advances r g₀ active w w₁ log ∧
      (((w₁.registry r).object? m).isSome ∨ m ∈ active) ∧ ∀ k ∈ started log, d.Needs m k := by
  have hnone : ∀ k ∈ started ([] : List (Name ⊕ Name × S.Object)), d.Needs m k :=
    fun k hk => absurd hk List.not_mem_nil
  cases hbound : (w.registry r).object? m with
  | some o =>
      obtain ⟨rfl, -⟩ := hs.bound m o hbound
      have hlookup : Ends caller (Script.lookup r m true) w (.ok (some (d.object m))) w :=
        ends_lookup_answered (Registry.lookup_of_bound hbound true)
      refine ⟨w, [], fun rest b w₂ h => hlookup.find h, .refl hs, Or.inl ?_, hnone⟩
      rw [hbound]
      rfl
  | none =>
      by_cases hactive : m ∈ active
      · have hmark : m ∈ (w.registry r).inCreation := (hs.marked m).mpr hactive
        rcases hs.exposed m hactive with href | ⟨href, hfactory⟩
        · have hlookup : Ends caller (Script.lookup r m true) w (.ok (some (d.object m))) w :=
            ends_lookup_answered (Registry.lookup_of_reference hbound hmark href true)
          exact ⟨w, [], fun rest b w₂ h => hlookup.find h, .refl hs, Or.inr hactive, hnone⟩
        · obtain ⟨w₁, hlookup, hadv⟩ :=
            exists_ends_lookup_early himpl hobs hs hm hactive href hfactory
          exact ⟨w₁, [], fun rest b w₂ h => hlookup.find h, hadv, Or.inr hactive, hnone⟩
      · obtain ⟨w₁, log, hends, hadv, hsome, hneeds⟩ := hcreate hactive hbound
        have hlookup : Ends caller (Script.lookup r m true) w (.ok none) w :=
          ends_lookup_answered
            (Registry.lookup_of_unmarked hbound (fun h => hactive ((hs.marked m).mp h)) true)
        exact ⟨w₁, log, fun rest b w₂ h => hlookup.find (hends.demand h), hadv, Or.inl hsome,
          hneeds⟩

/-- A factory takes its references in order, if what it asks for can be created. -/
lemma exists_ends_wire (himpl : d.Implemented caller r)
    (hobs : QuietlyObserved caller r (d.view r) g₀) {left : ℕ}
    (hcreate : ∀ m ∈ d.names, ∀ w : World S, d.Stage g₀ active (w.registry r) → m ∉ active →
      (w.registry r).object? m = none → d.unstarted (w.registry r) active ≤ left →
      d.Creates caller r g₀ active m w)
    {ms : List Name} (hms : ∀ m ∈ ms, m ∈ d.names) (hs : d.Stage g₀ active (w.registry r))
    (hleft : d.unstarted (w.registry r) active ≤ left) :
    ∃ w' log, Ends caller (d.wire r n ms) w (.ok (d.object n)) w' ∧
      d.Advances r g₀ active w w' log ∧
      (∀ m ∈ ms, ((w'.registry r).object? m).isSome ∨ m ∈ active) ∧
      ∀ k ∈ started log, ∃ m ∈ ms, d.Needs m k := by
  induction ms generalizing w with
  | nil => exact ⟨w, [], Ends.done _ w, .refl hs, by simp, by simp [started]⟩
  | cons m ms ih =>
      have hm : m ∈ d.names := hms m List.mem_cons_self
      obtain ⟨w₁, l₁, hends₁, hadv₁, hbound₁, hneeds₁⟩ := exists_ends_reference himpl hobs hs hm
        fun hactive hbound => hcreate m hm w hs hactive hbound hleft
      have hadv := hadv₁.trans (Advances.note hadv₁.stage m)
      obtain ⟨w', l₂, hends₂, hadv₂, hbound₂, hneeds₂⟩ :=
        ih (fun k hk => hms k (List.mem_cons_of_mem m hk)) hadv.stage
          ((Family.unstarted_le_of_gains hadv.gains active).trans hleft)
      refine ⟨w', _, hends₁ _ _ _ (Ends.note hends₂), hadv.trans hadv₂, fun k hk => ?_,
        fun k hk => ?_⟩
      · rcases List.mem_cons.mp hk with rfl | hk
        · exact hbound₁.imp_left fun h => hadv₂.gains.isSome h
        · exact hbound₂ k hk
      · rw [started_append, started_append, List.mem_append, List.mem_append] at hk
        rcases hk with (hk | hk) | hk
        · exact ⟨m, List.mem_cons_self, hneeds₁ k hk⟩
        · cases hk
        · obtain ⟨j, hj, hneeds⟩ := hneeds₂ k hk
          exact ⟨j, List.mem_cons_of_mem m hj, hneeds⟩

/-- The factory of a name that is neither bound nor being created installs the early factory, takes
its references and ends, and the name is bound. -/
lemma creates_of_wire (himpl : d.Implemented caller r)
    (hobs : QuietlyObserved caller r (d.view r) g₀) (hn : n ∈ d.names) (hactive : n ∉ active)
    (hbound : (w.registry r).object? n = none) (hs : d.Stage g₀ active (w.registry r))
    (hwire : ∀ w₁ : World S, d.Stage g₀ (n :: active) (w₁.registry r) →
      (w.registry r).Gains (w₁.registry r) [] →
      ∃ w₂ log, Ends caller (d.wire r n (d.requires n)) w₁ (.ok (d.object n)) w₂ ∧
        d.Advances r g₀ (n :: active) w₁ w₂ log ∧
        (∀ m ∈ d.requires n, ((w₂.registry r).object? m).isSome ∨ m ∈ n :: active) ∧
        ∀ k ∈ started log, ∃ m ∈ d.requires n, d.Needs m k) :
    d.Creates caller r g₀ active n w := by
  have hunmarked : n ∉ (w.registry r).inCreation := fun h => hactive ((hs.marked n).mp h)
  -- The factory installs the early factory.
  let w₀ := w.creating r n (d.build n) ((w.registry r).entering n)
  have hr₀ : w₀.registry r = (w.registry r).entering n := World.registry_creating w n _ _
  have hseen₀ : w₀.seen (d.view r) = w.seen (d.view r) ++ [.inl n] := by
    rw [World.seen_creating]
    simp [view, List.filterMap_cons]
  have hstage₁ := hs.enter hbound
  have hq₁ : QuietlyObserved caller r (d.view r)
      ((w₀.registry r).apply (.provideEarly n (d.early n))).registry := by
    rw [hr₀]
    exact hobs.of_observer hstage₁.observer
  obtain ⟨w₁, hends₁, hw₁⟩ := exists_ends_update hq₁
  have hr₁ : w₁.registry r = ((w.registry r).entering n).provideEarly n (d.early n) := by
    rw [hw₁.registry, hr₀]
    rfl
  have hgains₁ : (w.registry r).Gains (w₁.registry r) [] := by
    rw [hr₁]
    exact (Registry.Gains.refl _).of_object? fun m => Registry.object?_provideEarly ..
  -- Then it takes its references.
  obtain ⟨w₂, log, hends₂, hadv₂, hserved, hneeds⟩ := hwire w₁ (hr₁ ▸ hstage₁) hgains₁
  have hfactory : Ends caller (caller.factory (d.build n)) w₀ (.ok (d.object n)) w₂ := by
    rw [himpl.build n hn]
    exact hends₁.call hends₂
  -- At last the name is bound.
  obtain ⟨opened, reported, w', hends, hw'⟩ := exists_ends_create hbound hs.live (hs.tracked n)
    hunmarked hfactory (hadv₂.stage.tracked n) ((hadv₂.stage.marked n).mpr List.mem_cons_self)
    (hobs.of_observer hadv₂.stage.observer)
  have hr' : w'.registry r = ((w₂.registry r).leaving n opened).bind n (d.object n) := hw'.registry
  have hgains : (w.registry r).Gains (w'.registry r) (started (.inl n :: log)) := by
    have hunbound : (w₂.registry r).object? n = none :=
      hadv₂.stage.unbound List.mem_cons_self
    have hleaving : (w.registry r).Gains ((w₂.registry r).leaving n opened) (started log) :=
      (hgains₁.trans hadv₂.gains).of_object? fun _ => rfl
    rw [hr']
    exact hleaving.bind hunbound (d.object n)
  refine ⟨w', .inl n :: log, hends,
    ⟨hr' ▸ hadv₂.stage.leave hactive hserved opened, ?_, hgains, fun m o h => ?_⟩, ?_, ?_⟩
  · rw [hw'.seen, hadv₂.seen, hw₁.seen, hseen₀]
    simp [Registry.Change.lines, Registry.settle, Registry.apply, view]
  · exact hadv₂.obtained m o ((List.mem_cons.mp h).resolve_left (by simp))
  · rw [hr', Registry.object?_bind_self]
    rfl
  · intro k hk
    rcases List.mem_cons.mp hk with rfl | hk
    · exact Relation.ReflTransGen.refl
    · obtain ⟨m, hm, hneed⟩ := hneeds k hk
      exact Relation.ReflTransGen.head hm hneed

/-- A name that is neither bound nor being created can be created, whatever is being created
already: every creation leaves fewer names to be started. -/
lemma creates (himpl : d.Implemented caller r) (hobs : QuietlyObserved caller r (d.view r) g₀)
    (hn : n ∈ d.names) (hactive : n ∉ active) (hbound : (w.registry r).object? n = none)
    (hs : d.Stage g₀ active (w.registry r)) : d.Creates caller r g₀ active n w := by
  induction hleft : d.unstarted (w.registry r) active using Nat.strong_induction_on
    generalizing active n w with
  | _ left ih =>
      refine creates_of_wire himpl hobs hn hactive hbound hs fun w₁ hs₁ hgains => ?_
      have hlt : d.unstarted (w₁.registry r) (n :: active) < left := by
        have hle : d.unstarted (w₁.registry r) (n :: active) ≤
            d.unstarted (w.registry r) (n :: active) :=
          Family.unstarted_le_of_gains hgains (n :: active)
        have hcons : d.unstarted (w.registry r) (n :: active) < d.unstarted (w.registry r) active :=
          Family.unstarted_cons_lt hn hbound hactive
        omega
      refine exists_ends_wire himpl hobs (fun m hm w₂ hs₂ hm' hbound₂ hle => ?_) (d.closed n hn)
        hs₁ le_rfl
      exact ih _ (lt_of_le_of_lt hle hlt) hm hm' hbound₂ hs₂ rfl

/-! ### Circular wiring succeeds -/

variable (d r) in
/-- From `w` to `w'` the name `n` was created with all that it needs. -/
structure Completes (n : Name) (w w' : World S) (log : List (Name ⊕ Name × S.Object)) : Prop where
  seen : w'.seen (d.view r) = w.seen (d.view r) ++ log
  /-- The factories of the names that `n` needs were started, and no others. -/
  started : ∀ m, m ∈ started log ↔ d.Needs n m
  /-- No factory was started twice. -/
  once : (Wiring.started log).Nodup
  /-- Every reference that was obtained is the object of its name. -/
  obtained : ∀ m o, .inr (m, o) ∈ log → o = d.object m
  bound : ∀ m o, (w'.registry r).object? m = some o ↔ d.Needs n m ∧ o = d.object m
  marked : ∀ m, m ∉ (w'.registry r).inCreation
  factories : ∀ m, (w'.registry r).earlyFactories.get? m = none
  /-- No early reference is left but one that was there before, for a name that is not needed. -/
  references : ∀ m, d.Needs n m ∨ (w.registry r).earlyReferences.get? m = none →
    (w'.registry r).earlyReferences.get? m = none

/-- **Circular wiring succeeds**: in a registry at rest, the creation of a name ends with its
object, whatever requires what. Then exactly the names that it needs are bound, each to its own
object, and nothing is left of the creations. -/
theorem exists_ends_completes (himpl : d.Implemented caller r)
    (hobs : QuietlyObserved caller r (d.view r) (w.registry r)) (hrest : (w.registry r).AtRest)
    (hn : n ∈ d.names) :
    ∃ w' log, Ends caller (Script.obtain r n (d.build n)) w (.ok (d.object n)) w' ∧
      d.Completes r n w w' log := by
  obtain ⟨w', log, hends, hadv, hsome, hneeds⟩ := creates himpl hobs hn List.not_mem_nil
    (hrest.bound n) (Stage.start hrest)
  have hstarted : ∀ m, m ∈ started log ↔ ((w'.registry r).object? m).isSome := by
    intro m
    rw [hadv.gains.gained, hrest.bound m]
    exact and_iff_right rfl
  have hbound : ∀ m, ((w'.registry r).object? m).isSome ↔ d.Needs n m := by
    refine fun m => ⟨fun h => hneeds m ((hstarted m).mpr h), fun h => ?_⟩
    induction h with
    | refl => exact hsome
    | tail _ hstep ih => exact (hadv.stage.served _ ih _ hstep).resolve_right List.not_mem_nil
  refine ⟨w', log, hends, hadv.seen, fun m => (hstarted m).trans (hbound m), hadv.gains.once,
    hadv.obtained, fun m o => ⟨fun h => ?_, ?_⟩, fun m hm => ?_, fun m => ?_, fun m hm => ?_⟩
  · exact ⟨(hbound m).mp (by rw [h]; rfl), (hadv.stage.bound m o h).1⟩
  · rintro ⟨hneed, rfl⟩
    obtain ⟨o, ho⟩ := Option.isSome_iff_exists.mp ((hbound m).mpr hneed)
    rw [ho, (hadv.stage.bound m o ho).1]
  · exact absurd ((hadv.stage.marked m).mp hm) List.not_mem_nil
  · exact hadv.stage.factories m List.not_mem_nil
  · rw [hadv.stage.references m List.not_mem_nil]
    rcases hm with hneed | hnone
    · rw [if_pos ((hbound m).mpr hneed)]
    · rw [hnone, ite_self]

end Wiring

/-! ### Two names that require each other -/

/-- One registry, whose factories and early factories are known by the names that they are for. -/
def circleSetup : Setup := ⟨.basic, 1, Name ⊕ Name, Empty, Empty, Unit, Name × Object .basic⟩

/-- The client and the server require each other, and the server requires itself. -/
def circle : Wiring circleSetup where
  names := {"client", "server"}
  requires n := if n = "server" then ["client", "server"] else ["server"]
  closed n hn m hm := by
    split at hm
    · rcases List.mem_cons.mp hm with rfl | hm
      · decide
      · rw [List.mem_singleton.mp hm]
        decide
    · rw [List.mem_singleton.mp hm]
      decide
  object n := ⟨n.length, .text n⟩
  build := .inl
  early := .inr
  obtained m o := (m, o)
  obtained? content := some content
  obtained?_obtained _ _ := rfl

/-- The number of the registry. -/
def circleIndex : circleSetup.Index := Fin.mk 0 Nat.one_pos

/-- The factories of the client and the server. -/
def circleCaller : Caller circleSetup where
  factory
    | .inl n => .call circleIndex (.provideEarly n (.inr n)) fun _ =>
      circle.wire circleIndex n (circle.requires n)
    | .inr n => .done (.ok (circle.object n))
  disposer d := d.elim
  observer o _ := o.elim

/-- The empty registry as the only one of a world. -/
def circleWorld : World circleSetup := ⟨#v[{}], (), 0, []⟩

/-- The client is created, though the server requires it as well. -/
theorem exists_ends_completes_circle :
    circle.Implemented circleCaller circleIndex ∧
      QuietlyObserved circleCaller circleIndex (circle.view circleIndex)
        (circleWorld.registry circleIndex) ∧
      (circleWorld.registry circleIndex).AtRest ∧ "client" ∈ circle.names ∧
      ∃ w' log, Ends circleCaller (Script.obtain circleIndex "client" (circle.build "client"))
          circleWorld (.ok (circle.object "client")) w' ∧
        circle.Completes circleIndex "client" circleWorld w' log := by
  have himpl : circle.Implemented circleCaller circleIndex :=
    ⟨fun _ _ => rfl, fun _ _ => rfl⟩
  have hobs : QuietlyObserved circleCaller circleIndex (circle.view circleIndex)
      (circleWorld.registry circleIndex) := fun o => o.elim
  have hrest : (circleWorld.registry circleIndex).AtRest :=
    ⟨fun _ => rfl, fun _ => rfl, fun _ => List.not_mem_nil, fun _ => List.not_mem_nil, rfl⟩
  have hn : "client" ∈ circle.names := by decide
  exact ⟨himpl, hobs, hrest, hn, Wiring.exists_ends_completes himpl hobs hrest hn⟩

end InstanceRegistry
