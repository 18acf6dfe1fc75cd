import InstanceRegistry.Proofs.Creation.Steps
import InstanceRegistry.Proofs.Run.Answers
import InstanceRegistry.Proofs.Run.Calls

/-!
Failures that come out of nested creations. The factory of each name asks for the object of the next
one and hands its failure on, and the last factory fails. Every creation on the way wraps the
failure, unless it is an illegal state, which all of them hand on as it is.

* `Error.escaping`, `Error.propagated`: what comes out of one creation, and out of many;
* `Error.message_propagated`, `Error.rootCause_propagated`, `Error.chain_propagated`: what such a
  failure says about itself;
* `Registry.Awaits`: a registry in which some names are being created and others can be;
* `Script.handOn`, `Cascade`: factories that hand on the failure of the next one;
* `Unwinds`, `Unwinds.of_factory`: a request that fails through some levels, and one more level;
* `Cascade.exists_unwinds`: the requests of a cascade, from the innermost one outwards;
* `failure_keeps_chain`: the failure at the outermost request and at all others;
* `failure_keeps_chain_relay`: three names, and a failure with causes of its own.
-/

namespace InstanceRegistry

/-! ### Errors -/

namespace Error

variable {e : Error} {name : Name} {related : List Error} {levels : List (Name × List Error)}

/-- A failure that creations hand on as it is. -/
def IsIllegalState (e : Error) : Prop := ∃ reason, e = .illegalState reason

/-- What comes out of a creation whose factory fails, if no object stands in for it. -/
def escaping (name : Name) (related : List Error) : Error → Error
  | illegalState reason => illegalState reason
  | e => creationFailed name e related

/-- What comes out of creations inside of each other, the outermost first, if the factory of the
last one fails. Each level has its name and the errors reported meanwhile. -/
def propagated (e : Error) (levels : List (Name × List Error)) : Error :=
  levels.foldr (fun level cause => cause.escaping level.1 level.2) e

/-- What the message of a failed creation has in front of the message of its cause. -/
def heading (name : Name) : String := "error creating singleton '" ++ name ++ "': "

lemma escaping_of_not (h : ¬ e.IsIllegalState) :
    e.escaping name related = .creationFailed name e related := by
  cases e with
  | illegalState reason => exact absurd ⟨reason, rfl⟩ h
  | _ => rfl

lemma isIllegalState_escaping : (e.escaping name related).IsIllegalState ↔ e.IsIllegalState := by
  by_cases h : e.IsIllegalState
  · obtain ⟨reason, rfl⟩ := h
    exact Iff.rfl
  · rw [escaping_of_not h]
    simp only [h, iff_false]
    rintro ⟨reason, heq⟩
    cases heq

lemma isIllegalState_propagated : (e.propagated levels).IsIllegalState ↔ e.IsIllegalState := by
  induction levels with
  | nil => exact Iff.rfl
  | cons level levels ih => exact isIllegalState_escaping.trans ih

/-- **An illegal state** comes out as it is. -/
theorem propagated_of_isIllegalState (h : e.IsIllegalState) : e.propagated levels = e := by
  obtain ⟨reason, rfl⟩ := h
  induction levels with
  | nil => rfl
  | cons level levels ih =>
      rw [propagated, List.foldr_cons, ← propagated, ih]
      rfl

/-- Any other failure is wrapped once more at each level. -/
lemma propagated_cons (h : ¬ e.IsIllegalState) (level : Name × List Error) :
    e.propagated (level :: levels) = .creationFailed level.1 (e.propagated levels) level.2 :=
  escaping_of_not (isIllegalState_propagated.not.mpr h)

lemma propagated_eq_foldr (h : ¬ e.IsIllegalState) : e.propagated levels =
    levels.foldr (fun level cause => .creationFailed level.1 cause level.2) e := by
  induction levels with
  | nil => rfl
  | cons level levels ih => rw [propagated_cons h, ih, List.foldr_cons]

lemma message_creationFailed (name : Name) (cause : Error) (related : List Error) :
    (creationFailed name cause related).message = heading name ++ cause.message := rfl

/-- **The message** has a heading for each level, in order. -/
theorem message_propagated (h : ¬ e.IsIllegalState) : (e.propagated levels).message =
    String.join (levels.map fun level => heading level.1) ++ e.message := by
  induction levels with
  | nil => simp [propagated]
  | cons level levels ih =>
      rw [propagated_cons h, message_creationFailed, ih, List.map_cons, String.join_cons,
        String.append_assoc]

/-- The failure under all nested creations is not the failure of a creation. -/
lemma rootCause_ne_creationFailed (e : Error) (name : Name) (cause : Error) (related : List Error) :
    e.rootCause ≠ .creationFailed name cause related := by
  fun_induction rootCause e with
  | case1 _ _ _ ih => exact ih
  | case2 e hne => exact hne name cause related

/-- **The failure under all nested creations** stays the same. -/
theorem rootCause_propagated (h : ¬ e.IsIllegalState) :
    (e.propagated levels).rootCause = e.rootCause := by
  induction levels with
  | nil => rfl
  | cons level levels ih => rw [propagated_cons h, rootCause, ih]

/-- **The causes** are the failures of the inner levels, down to the first one, and its causes. -/
theorem chain_propagated (h : ¬ e.IsIllegalState) : (e.propagated levels).chain =
    (levels.tails.tail.map fun inner => (e.propagated inner).message) ++ e.chain := by
  induction levels with
  | nil => rfl
  | cons level levels ih =>
      have htails : levels.tails = levels :: levels.tails.tail := by cases levels <;> rfl
      rw [propagated_cons h, chain, ih, List.tails_cons, List.tail_cons]
      conv_rhs => rw [htails]
      rw [List.map_cons, List.cons_append]

end Error

variable {S : Setup} {α β : Type} {caller : Caller S} {r : S.Index} {e : Error}

/-! ### Registries in which a failure is on its way -/

namespace Registry

variable {g : Registry S} {active pending : List Name} {n : Name} {opened : Bool}

/-- The names in `active` are being created, and those in `pending` can be. If the failure is one
that creations hand on as it is, no object stands in for it. -/
structure Awaits (e : Error) (active pending : List Name) (g : Registry S) : Prop where
  live : g.inDestruction = false
  tracked : ∀ m ∈ active ++ pending, m ∉ g.excluded
  marked : ∀ m ∈ active, m ∈ g.inCreation
  unmarked : ∀ m ∈ pending, m ∉ g.inCreation
  absent : ∀ m ∈ pending, g.object? m = none
  unbound : e.IsIllegalState → ∀ m ∈ active, g.object? m = none

namespace Awaits

lemma demand (h : Awaits e active (n :: pending) g) :
    g.demand n = .create (g.entering n) g.suppressed.isNone :=
  demand_eq_create (h.absent n List.mem_cons_self) h.live
    (h.tracked n (List.mem_append_right _ List.mem_cons_self)) (h.unmarked n List.mem_cons_self)

/-- The creation of the next name begins. -/
lemma entering (h : Awaits e active (n :: pending) g) (hnew : n ∉ pending) :
    Awaits e (n :: active) pending (g.entering n) where
  live := h.live
  tracked m hm := h.tracked m (by simp at hm ⊢; tauto)
  marked m hm := by
    refine NameSet.mem_add.mpr ((List.mem_cons.mp hm).imp_right (h.marked m))
  unmarked m hm := by
    refine NameSet.mem_add.not.mpr (not_or.mpr ⟨?_, h.unmarked m (List.mem_cons_of_mem n hm)⟩)
    rintro rfl
    exact hnew hm
  absent m hm := h.absent m (List.mem_cons_of_mem n hm)
  unbound he m hm := by
    rcases List.mem_cons.mp hm with rfl | hm
    · exact h.absent m List.mem_cons_self
    · exact h.unbound he m hm

/-- The creation of the last name has ended. -/
lemma leaving (h : Awaits e (n :: active) [] g) (hnew : n ∉ active) :
    Awaits e active [] (g.leaving n opened) where
  live := h.live
  tracked m hm := h.tracked m (List.mem_cons_of_mem n hm)
  marked m hm := by
    refine NameMap.mem_erase.mpr ⟨?_, h.marked m (List.mem_cons_of_mem n hm)⟩
    rintro rfl
    exact hnew hm
  unmarked m hm := absurd hm List.not_mem_nil
  absent m hm := absurd hm List.not_mem_nil
  unbound he m hm := h.unbound he m (List.mem_cons_of_mem n hm)

/-- The creation of the last name fails. -/
lemma finishCreation (h : Awaits e (n :: active) [] g) {cause : Error}
    (hcause : cause.IsIllegalState → e.IsIllegalState) (opened : Bool) :
    g.finishCreation n opened (.error cause) =
      { registry := g.leaving n opened
        answer := .error (cause.escaping n (g.closeReports opened).2) } := by
  rw [finishCreation_eq (h.tracked n List.mem_cons_self) (h.marked n List.mem_cons_self)]
  by_cases hillegal : cause.IsIllegalState
  · have hbound : (g.leaving n opened).object? n = none :=
      h.unbound (hcause hillegal) n List.mem_cons_self
    obtain ⟨reason, rfl⟩ := hillegal
    simp only [settle, hbound, Error.escaping]
  · rw [Error.escaping_of_not hillegal]
    cases cause with
    | illegalState reason => exact absurd ⟨reason, rfl⟩ hillegal
    | _ => rfl

end Awaits

end Registry

/-! ### Factories that hand failures on -/

/-- What follows a request for an object: a failure is handed on. -/
def Script.handOn (after : S.Object → Script S (Except Error S.Object)) :
    Except Error S.Object → Script S (Except Error S.Object)
  | .ok object => after object
  | .error failure => .done (.error failure)

variable (caller r e) in
/-- In the world `w`, in which the names in `active` are being created, a request for `n` starts the
factory `f`, and that hands on the failure `e` of the last factory in a chain. Whatever a factory
does before it asks for the next name, it comes to an end, and leaves the names as they are. What it
does with an object of the next name does not matter. -/
inductive Cascade : World S → List Name → Name → S.Factory → List (Name × S.Factory) → Prop
  | last {w w₁ : World S} {active : List Name} {n : Name} {f : S.Factory}
      (hends : Ends caller (caller.factory f) (w.creating r n f ((w.registry r).entering n))
        (.error e) w₁)
      (h₁ : (w₁.registry r).Awaits e (n :: active) []) :
      Cascade w active n f []
  | ask {w w₁ : World S} {active : List Name} {n m : Name} {f f' : S.Factory}
      {rest : List (Name × S.Factory)} {γ : Type} {a : γ} (before : Script S γ)
      (after : γ → S.Object → Script S (Except Error S.Object))
      (hf : caller.factory f = before.bind fun a => .demand r m f' (Script.handOn (after a)))
      (hends : Ends caller before (w.creating r n f ((w.registry r).entering n)) a w₁)
      (h₁ : (w₁.registry r).Awaits e (n :: active) (m :: rest.map Prod.fst))
      (hnext : Cascade w₁ (n :: active) m f' rest) :
      Cascade w active n f ((m, f') :: rest)

/-! ### Runs -/

/-- A request that is answered in a run is answered inside another one. -/
lemma Config.Answers.inside {base : Role} {next : β → Script S (base.Result S α)}
    {below : Stack S α base} {c : Config S β} {name : Name} {answer : Except Error S.Object}
    (h : c.Answers r name answer) : (c.inside next below).Answers r name answer := by
  cases h with
  | @once role factory k stack w _ notices hdemand =>
      have hk : Script.inside next role (.demand r name factory k) =
          .demand r name factory fun answer => (k answer).inside next role := by cases role <;> rfl
      simp only [Config.inside, Activity.inside, hk]
      exact .once hdemand
  | ended => exact .ended

variable {active : List Name} {n : Name} {f : S.Factory} {rest : List (Name × S.Factory)}

/-- The registry in which the factory of a request starts. -/
lemma Registry.Awaits.creating {pending : List Name} {w : World S}
    (h : (w.registry r).Awaits e active (n :: pending)) (hnew : n ∉ pending) (f : S.Factory) :
    ((w.creating r n f ((w.registry r).entering n)).registry r).Awaits e (n :: active) pending := by
  rw [World.registry_creating]
  exact h.entering hnew

/-- The factory of a request starts. -/
lemma Registry.Awaits.reaches_factory {pending : List Name} {w : World S}
    (h : (w.registry r).Awaits e active (n :: pending)) :
    Reaches caller (Config.start (Script.obtain r n f) w)
      ⟨.factory, .script (caller.factory f),
        .creating r n (w.registry r).suppressed.isNone .done .bottom,
        w.creating r n f ((w.registry r).entering n)⟩ := by
  refine Reaches.head ?_ (Reaches.refl _)
  simp only [Config.start, Script.obtain, step, stepScript, h.demand, World.creating]

/-- A request fails with the factory that it has started. -/
lemma Registry.Awaits.exists_fails {pending : List Name} {w w₁ : World S} {cause : Error}
    (h : (w.registry r).Awaits e active (n :: pending))
    (hf : Ends caller (caller.factory f) (w.creating r n f ((w.registry r).entering n))
      (.error cause) w₁)
    (h₁ : (w₁.registry r).Awaits e (n :: active) [])
    (hcause : cause.IsIllegalState → e.IsIllegalState) :
    ∃ related opened w',
      Ends caller (Script.obtain r n f) w (.error (cause.escaping n related)) w' ∧
      w'.registry r = (w₁.registry r).leaving n opened ∧
      ∃ d, Reaches caller (Config.start (Script.obtain r n f) w) d ∧
        d.Answers r n (.error (cause.escaping n related)) := by
  let opened := (w.registry r).suppressed.isNone
  let d : Config S (Except Error S.Object) :=
    ⟨.factory, .script (.done (.error cause)), .creating r n opened .done .bottom, w₁⟩
  have hreach : Reaches caller (Config.start (Script.obtain r n f) w) d :=
    h.reaches_factory.trans (Ends.reaches_done hf)
  have hfinish := h₁.finishCreation hcause opened
  let change : Registry.Change S (Except Error S.Object) :=
    { registry := (w₁.registry r).leaving n opened
      answer := .error (cause.escaping n ((w₁.registry r).closeReports opened).2) }
  have hstep : step caller d = Config.start (.done change.answer) (w₁.carry r change) :=
    calc step caller d
        = commit caller r ((w₁.registry r).finishCreation n opened (.error cause))
            (fun answer => .script (.done answer)) .bottom w₁ := rfl
      _ = commit caller r change (fun answer => .script (.done answer)) .bottom w₁ := by
          rw [hfinish]
      _ = Config.start (.done change.answer) (w₁.carry r change) := rfl
  refine ⟨_, opened, _, hreach.trans (Reaches.head hstep (Reaches.refl _)),
    World.registry_carry w₁ change, d, hreach, ?_⟩
  have hanswers : d.Answers r n ((w₁.registry r).finishCreation n opened (.error cause)).answer :=
    .ended
  rwa [hfinish] at hanswers

variable (caller r e) in
/-- The request for `n` in the world `w` fails through all levels, of which the outermost is its
own: each request is answered with the failures from its level on. In the end no name of the levels
is left in creation. -/
structure Unwinds (active : List Name) (n : Name) (f : S.Factory) (w : World S)
    (levels : List (Name × List Error)) (w' : World S) : Prop where
  fails : Ends caller (Script.obtain r n f) w (.error (e.propagated levels)) w'
  awaits : (w'.registry r).Awaits e active []
  unmarked : ∀ level ∈ levels, level.1 ∉ (w'.registry r).inCreation
  answered : ∀ outer level inner, levels = outer ++ level :: inner →
    ∃ d, Reaches caller (Config.start (Script.obtain r n f) w) d ∧
      d.Answers r level.1 (.error (e.propagated (level :: inner)))

/-- A factory that hands on the failure of the inner levels adds the level of its own name. -/
lemma Unwinds.of_factory {pending : List Name} {w w₁ : World S}
    (inner : List (Name × List Error))
    (hw : (w.registry r).Awaits e active (n :: pending)) (hnew : n ∉ active)
    (hf : Ends caller (caller.factory f) (w.creating r n f ((w.registry r).entering n))
      (.error (e.propagated inner)) w₁)
    (h₁ : (w₁.registry r).Awaits e (n :: active) [])
    (hunmarked : ∀ level ∈ inner, level.1 ∉ (w₁.registry r).inCreation)
    (hanswered : ∀ outer level rest, inner = outer ++ level :: rest →
      ∃ d, Reaches caller (Config.start (Script.obtain r n f) w) d ∧
        d.Answers r level.1 (.error (e.propagated (level :: rest)))) :
    ∃ related w', Unwinds caller r e active n f w ((n, related) :: inner) w' := by
  obtain ⟨related, opened, w', hfails, hregistry, hanswer⟩ :=
    hw.exists_fails hf h₁ Error.isIllegalState_propagated.mp
  refine ⟨related, w', hfails, hregistry ▸ h₁.leaving hnew, fun level hlevel hmem => ?_, ?_⟩
  · rw [hregistry] at hmem
    obtain ⟨hne, hmem⟩ := NameMap.mem_erase.mp hmem
    rcases List.mem_cons.mp hlevel with rfl | hlevel
    · exact hne rfl
    · exact hunmarked level hlevel hmem
  · intro outer level rest hsplit
    cases outer with
    | nil =>
        obtain ⟨rfl, rfl⟩ := List.cons.inj hsplit
        exact hanswer
    | cons first outer => exact hanswered outer level rest (List.cons.inj hsplit).2

/-- A request comes to the one that its factory makes, with what is left to do after that. -/
lemma Registry.Awaits.reaches_next {pending : List Name} {w w₁ : World S} {m : Name}
    {f' : S.Factory} {γ : Type} {a : γ} {before : Script S γ}
    {after : γ → S.Object → Script S (Except Error S.Object)}
    (hw : (w.registry r).Awaits e active (n :: pending))
    (hf : caller.factory f = before.bind fun a => .demand r m f' (Script.handOn (after a)))
    (hends : Ends caller before (w.creating r n f ((w.registry r).entering n)) a w₁) :
    ∃ below : Stack S (Except Error S.Object) .factory,
      Reaches caller (Config.start (Script.obtain r n f) w)
        ((Config.start (Script.obtain r m f') w₁).inside (Script.handOn (after a)) below) := by
  refine ⟨.creating r n (w.registry r).suppressed.isNone .done .bottom,
    hw.reaches_factory.trans ?_⟩
  rw [hf]
  exact hends.reaches

/-- **The requests of a cascade** fail, from the innermost one outwards, each with the failure of
the next one. No name of the cascade is left in creation. -/
theorem Cascade.exists_unwinds {w : World S} (h : Cascade caller r e w active n f rest)
    (hw : (w.registry r).Awaits e active (n :: rest.map Prod.fst))
    (hnames : (n :: rest.map Prod.fst).Nodup) (hactive : ∀ m ∈ n :: rest.map Prod.fst, m ∉ active) :
    ∃ levels w', levels.map Prod.fst = n :: rest.map Prod.fst ∧
      Unwinds caller r e active n f w levels w' := by
  induction h with
  | @last w w₁ active n f hends hw₁ =>
      obtain ⟨related, w', hunwinds⟩ := Unwinds.of_factory [] hw (hactive n List.mem_cons_self)
        hends hw₁ (fun level hlevel => absurd hlevel List.not_mem_nil)
        fun outer level rest hsplit => absurd hsplit (by simp)
      exact ⟨[(n, related)], w', rfl, hunwinds⟩
  | @ask w w₀ active n m f f' rest γ a before after hf hbefore hw₀ _ ih =>
      obtain ⟨hnew, hrest⟩ := List.nodup_cons.mp hnames
      have hpending : ∀ k ∈ m :: rest.map Prod.fst, k ∉ n :: active := by
        intro k hk hmem
        rcases List.mem_cons.mp hmem with rfl | hmem
        · exact hnew hk
        · exact hactive k (List.mem_cons_of_mem n hk) hmem
      obtain ⟨levels, w₁, hlevels, hinner⟩ := ih hw₀ hrest hpending
      have hfactory : Ends caller (caller.factory f) (w.creating r n f ((w.registry r).entering n))
          (.error (e.propagated levels)) w₁ := by
        rw [hf]
        exact hbefore.bind (hinner.fails.demand (Ends.done _ w₁))
      obtain ⟨below, hasks⟩ := hw.reaches_next hf hbefore
      obtain ⟨related, w', hunwinds⟩ := Unwinds.of_factory levels hw (hactive n List.mem_cons_self)
        hfactory hinner.awaits hinner.unmarked fun outer level rest hsplit => by
          obtain ⟨c, hc, hanswers⟩ := hinner.answered outer level rest hsplit
          exact ⟨_, hasks.trans hc.inside, hanswers.inside⟩
      exact ⟨(n, related) :: levels, w', by rw [List.map_cons, hlevels]; rfl, hunwinds⟩

/-- **A failure keeps its whole chain**: let the names be different, neither bound nor being created
nor excluded, and nothing being destroyed. Let the factory of each ask for the next name and hand
its failure on, and let the last factory fail with `e`. Then the request for the first name fails,
each request on the way is answered with the failures from there on, and no name is left in
creation. An illegal state comes out of all of them as it is, if none of the names is bound
meanwhile. Any other failure is wrapped once at each level. Then the failure under all of them is
that of `e`, and not the failure of a creation; the message is a heading for each name, in order,
and the message of `e`; and the causes are the messages of the inner failures down to `e`, and the
causes of `e`. -/
theorem failure_keeps_chain {w : World S} (h : Cascade caller r e w [] n f rest)
    (hw : (w.registry r).Awaits e [] (n :: rest.map Prod.fst))
    (hnames : (n :: rest.map Prod.fst).Nodup) :
    ∃ levels w', levels.map Prod.fst = n :: rest.map Prod.fst ∧
      Ends caller (Script.obtain r n f) w (.error (e.propagated levels)) w' ∧
      (∀ m ∈ n :: rest.map Prod.fst, m ∉ (w'.registry r).inCreation) ∧
      (∀ outer level inner, levels = outer ++ level :: inner →
        ∃ k, (run caller k (Config.start (Script.obtain r n f) w)).Answers r level.1
          (.error (e.propagated (level :: inner)))) ∧
      (e.IsIllegalState → ∀ inner, e.propagated inner = e) ∧
      (¬ e.IsIllegalState →
        e.propagated levels =
          levels.foldr (fun level cause => .creationFailed level.1 cause level.2) e ∧
        (e.propagated levels).rootCause = e.rootCause ∧
        (∀ name cause related, e.rootCause ≠ .creationFailed name cause related) ∧
        (e.propagated levels).message =
          String.join ((n :: rest.map Prod.fst).map Error.heading) ++ e.message ∧
        (e.propagated levels).chain =
          (levels.tails.tail.map fun inner => (e.propagated inner).message) ++ e.chain) := by
  obtain ⟨levels, w', hlevels, hunwinds⟩ := h.exists_unwinds hw hnames fun m _ => List.not_mem_nil
  refine ⟨levels, w', hlevels, hunwinds.fails, fun m hm => ?_, fun outer level inner hsplit => ?_,
    fun he inner => Error.propagated_of_isIllegalState he, fun he => ⟨?_,
      Error.rootCause_propagated he, e.rootCause_ne_creationFailed, ?_,
      Error.chain_propagated he⟩⟩
  · obtain ⟨level, hlevel, rfl⟩ := List.mem_map.mp (hlevels ▸ hm)
    exact hunwinds.unmarked level hlevel
  · obtain ⟨d, ⟨k, rfl⟩, hanswers⟩ := hunwinds.answered outer level inner hsplit
    exact ⟨k, hanswers⟩
  · exact Error.propagated_eq_foldr he
  · rw [← hlevels, List.map_map]
    exact Error.message_propagated he

/-! ### Three names -/

/-- The factories of three names, each of which needs the next one. -/
inductive RelayFactory where
  | client
  | service
  | store

/-- One registry, and the factories of the three names. -/
def relaySetup : Setup := ⟨.basic, 1, RelayFactory, Empty, Empty, Unit, Empty⟩

/-- The number of the registry. -/
def relayIndex : relaySetup.Index := Fin.mk 0 Nat.one_pos

/-- The factory of the client reports an error first. The factory of the store fails. -/
def relayCaller (e : Error) : Caller relaySetup where
  factory
    | .client => .call relayIndex (.suppress (.caller "slow" [])) fun _ =>
      .demand relayIndex "service" .service (Script.handOn fun object => .done (.ok object))
    | .service =>
      .demand relayIndex "store" .store (Script.handOn fun object => .done (.ok object))
    | .store => .done (.error e)
  disposer d := d.elim
  observer o _ := o.elim

/-- A new registry as the only one of a world. -/
def relayWorld : World relaySetup := ⟨#v[{}], (), 0, []⟩

/-- The failure of the store, with causes of its own. -/
def diskFull : Error := .caller "disk full" ["write failed", "no space left"]

lemma awaits_relay (e : Error) :
    (relayWorld.registry relayIndex).Awaits e [] ["client", "service", "store"] where
  live := rfl
  tracked _ _ := List.not_mem_nil
  marked _ hm := absurd hm List.not_mem_nil
  unmarked _ _ := List.not_mem_nil
  absent _ _ := rfl
  unbound _ _ hm := absurd hm List.not_mem_nil

lemma cascade_relay (e : Error) :
    Cascade (relayCaller e) relayIndex e relayWorld [] "client" .client
      [("service", .service), ("store", .store)] := by
  have hclient := (awaits_relay e).creating (by decide) .client
  have hquiet : QuietlyObserved (relayCaller e) relayIndex Entry.unseen
      (((relayWorld.creating relayIndex "client" .client
        ((relayWorld.registry relayIndex).entering "client")).registry relayIndex).apply
          (.suppress (.caller "slow" []))).registry := fun o => o.elim
  obtain ⟨w₁, hends, hw₁⟩ := exists_ends_update hquiet
  have hservice : (w₁.registry relayIndex).Awaits e ["client"] ["service", "store"] :=
    hw₁.registry ▸ ⟨hclient.live, hclient.tracked, hclient.marked, hclient.unmarked, hclient.absent,
      hclient.unbound⟩
  have hstore := hservice.creating (by decide) .service
  refine .ask (Script.update relayIndex (.suppress (.caller "slow" [])))
    (fun _ object => .done (.ok object)) rfl hends hservice ?_
  refine .ask (Script.done ()) (fun _ object => .done (.ok object)) rfl (Ends.done _ _) hstore ?_
  exact .last (Ends.done _ _) (hstore.creating List.not_mem_nil .store)

/-- The failure of the store comes out at the client with the headings of all three, and an illegal
state comes out as it is. -/
theorem failure_keeps_chain_relay :
    Cascade (relayCaller diskFull) relayIndex diskFull relayWorld [] "client" .client
      [("service", .service), ("store", .store)] ∧
    (relayWorld.registry relayIndex).Awaits diskFull [] ["client", "service", "store"] ∧
    (∃ levels w', levels.map Prod.fst = ["client", "service", "store"] ∧
      Ends (relayCaller diskFull) (Script.obtain relayIndex "client" .client) relayWorld
        (.error (diskFull.propagated levels)) w' ∧
      (diskFull.propagated levels).message = "error creating singleton 'client': " ++
        ("error creating singleton 'service': " ++
          ("error creating singleton 'store': " ++ "disk full")) ∧
      (diskFull.propagated levels).chain.length = 5) ∧
    ∃ w', Ends (relayCaller (.illegalState "closed"))
      (Script.obtain relayIndex "client" .client) relayWorld
      (.error (.illegalState "closed")) w' := by
  have hfull : ¬ diskFull.IsIllegalState := by
    rintro ⟨reason, heq⟩
    cases heq
  refine ⟨cascade_relay diskFull, awaits_relay diskFull, ?_, ?_⟩
  · obtain ⟨levels, w', hlevels, hends, -, -, -, hwrapped⟩ :=
      failure_keeps_chain (cascade_relay diskFull) (awaits_relay diskFull) (by decide)
    obtain ⟨-, -, -, hmessage, hchain⟩ := hwrapped hfull
    have hlength : levels.length = 3 := by
      simpa using congrArg List.length hlevels
    refine ⟨levels, w', hlevels, hends, hmessage.trans (by decide +kernel), ?_⟩
    rw [hchain]
    simp [hlength, diskFull, Error.chain]
  · obtain ⟨levels, w', -, hends, -, -, hillegal, -⟩ :=
      failure_keeps_chain (cascade_relay (.illegalState "closed")) (awaits_relay _) (by decide)
    rw [hillegal ⟨"closed", rfl⟩] at hends
    exact ⟨w', hends⟩

end InstanceRegistry
