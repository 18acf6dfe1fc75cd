import InstanceRegistry.Proofs.Run.Nesting

/-!
What the calls of a registry come to, when the code that they run keeps off that registry.

* `World.seen`, `Entry.unseen`: what a view of the journal shows, and the view that shows nothing;
* `World.Becomes`: a registry and what is seen of the journal, at a later moment;
* `KeepsOff`: code that ends and neither touches a registry nor writes what is seen;
* `QuietlyObserved`: registries whose observer is such code;
* `exists_reaches_commit`: a change of a registry is made, its observer is told, and the run goes
  on;
* `exists_ends_update`, `ends_lookup_answered`, `exists_ends_lookup_expose`, `ends_obtain_answered`,
  `exists_ends_obtain_create`, `exists_ends_factory`: the calls of a script;
* `Ends.find`, `Ends.demand`, `Ends.call`, `Ends.note`: the calls in front of a script.
-/

namespace InstanceRegistry

variable {S : Setup} {α β γ : Type}

/-! ### What is seen of a world -/

/-- The view of the journal that shows nothing. -/
def Entry.unseen (_ : Entry S) : Option Unit := none

namespace World

/-- What a view of the journal shows. -/
def seen (view : Entry S → Option γ) (w : World S) : List γ := w.journal.filterMap view

/-- At a later moment `w'` the registry is `g`, and `added` has been seen since `w`. -/
structure Becomes (r : S.Index) (view : Entry S → Option γ) (w : World S) (g : Registry S)
    (added : List γ) (w' : World S) : Prop where
  registry : w'.registry r = g
  seen : w'.seen view = w.seen view ++ added

variable {r : S.Index} {view : Entry S → Option γ}

@[simp] lemma registry_write (w : World S) (e : Entry S) :
    (w.write e).registry r = w.registry r := rfl

@[simp] lemma registry_log (w : World S) (s : S.Index) (notices : List Notice) :
    (w.log s notices).registry r = w.registry r := rfl

lemma registry_carry (w : World S) (change : Registry.Change S β) :
    (w.carry r change).registry r = change.registry :=
  w.registry_setRegistry_self r change.registry

@[simp] lemma seen_setRegistry (w : World S) (s : S.Index) (g : Registry S) :
    (w.setRegistry s g).seen view = w.seen view := rfl

lemma seen_write (w : World S) (e : Entry S) :
    (w.write e).seen view = w.seen view ++ [e].filterMap view :=
  List.filterMap_append

lemma seen_log (w : World S) (s : S.Index) (notices : List Notice) :
    (w.log s notices).seen view = w.seen view ++ (notices.map (Entry.notice s)).filterMap view :=
  List.filterMap_append

lemma Becomes.refl (w : World S) : Becomes r view w (w.registry r) [] w :=
  ⟨rfl, (List.append_nil _).symm⟩

lemma Becomes.trans {w w₁ w₂ : World S} {g₁ g₂ : Registry S} {l₁ l₂ : List γ}
    (h : Becomes r view w g₁ l₁ w₁) (h' : Becomes r view w₁ g₂ l₂ w₂) :
    Becomes r view w g₂ (l₁ ++ l₂) w₂ :=
  ⟨h'.registry, by rw [h'.seen, h.seen, List.append_assoc]⟩

end World

/-! ### Code that keeps off a registry -/

variable (caller : Caller S) (r : S.Index) (view : Entry S → Option γ)

/-- The script ends wherever it is run, leaves the registry as it is, and writes nothing that is
seen. -/
def KeepsOff (s : Script S β) : Prop :=
  ∀ w, ∃ a w', Ends caller s w a w' ∧ w.Becomes r view (w.registry r) [] w'

/-- The observer of the registry, if there is one, keeps off the registry. -/
def QuietlyObserved (g : Registry S) : Prop :=
  ∀ o, g.observer = some o → ∀ e, KeepsOff caller r view (caller.observer o e)

/-- The lines that a change of a registry adds to the journal. -/
def Registry.Change.lines (change : Registry.Change S β) : List (Entry S) :=
  change.notices.map (.notice r) ++ change.event.toList.map (.event r)

variable {caller r view}

/-- Nothing but the observer of the registry matters. -/
lemma QuietlyObserved.of_observer {g g' : Registry S} (h : QuietlyObserved caller r view g)
    (heq : g'.observer = g.observer) : QuietlyObserved caller r view g' :=
  fun o ho => h o (heq ▸ ho)

lemma keepsOff_done (a : β) : KeepsOff caller r view (.done a) :=
  fun w => ⟨a, w, Ends.done a w, World.Becomes.refl w⟩

/-- An event is reported to an observer that keeps off, and the run goes on. -/
lemma exists_reaches_report {role : Role} {event : Option Event}
    {next : Activity S (role.Result S α)} {stack : Stack S α role} {w : World S}
    (h : QuietlyObserved caller r view (w.registry r)) :
    ∃ w', Reaches caller (report caller r event next stack w) ⟨role, next, stack, w'⟩ ∧
      w.Becomes r view (w.registry r) ((event.toList.map (.event r)).filterMap view) w' := by
  cases event with
  | none => exact ⟨w, Reaches.refl _, World.Becomes.refl w⟩
  | some e =>
      have hw : w.Becomes r view (w.registry r) ([.event r e].filterMap view)
          (w.write (.event r e)) := ⟨rfl, World.seen_write w _⟩
      cases ho : (w.registry r).observer with
      | none =>
          refine ⟨w.write (.event r e), ?_, hw⟩
          simp only [report, ho]
          exact Reaches.refl _
      | some o =>
          obtain ⟨⟨⟩, w', hends, hw'⟩ := h o ho e (w.write (.event r e))
          refine ⟨w', ?_, ?_⟩
          · simp only [report, ho]
            exact hends.reaches_done.trans (Reaches.next _)
          · simpa using hw.trans hw'

/-- A change of a registry is made and reported, and the run goes on with the answer. -/
theorem exists_reaches_commit {role : Role} (change : Registry.Change S β)
    (next : β → Activity S (role.Result S α)) (stack : Stack S α role) (w : World S)
    (h : QuietlyObserved caller r view change.registry) :
    ∃ w', Reaches caller (commit caller r change next stack w)
        ⟨role, next change.answer, stack, w'⟩ ∧
      w.Becomes r view change.registry ((change.lines r).filterMap view) w' := by
  have hr : (w.carry r change).registry r = change.registry := w.registry_carry change
  have hc : w.Becomes r view change.registry
      ((change.notices.map (.notice r)).filterMap view) (w.carry r change) :=
    ⟨hr, World.seen_log _ r change.notices⟩
  have hq : QuietlyObserved caller r view ((w.carry r change).registry r) := by rwa [hr]
  obtain ⟨w', hreach, hw'⟩ := exists_reaches_report hq
  refine ⟨w', hreach, ?_⟩
  rw [hr] at hw'
  simpa [Registry.Change.lines] using hc.trans hw'

/-! ### The calls of a script -/

/-- An operation that runs no code of the caller. -/
lemma exists_ends_update {u : Update S} {w : World S}
    (h : QuietlyObserved caller r view ((w.registry r).apply u).registry) :
    ∃ w', Ends caller (Script.update r u) w ((w.registry r).apply u).answer w' ∧
      w.Becomes r view ((w.registry r).apply u).registry
        ((((w.registry r).apply u).lines r).filterMap view) w' := by
  obtain ⟨w', hreach, hw'⟩ := exists_reaches_commit ((w.registry r).apply u)
    (fun answer => .script (.done answer)) Stack.bottom w h
  exact ⟨w', Reaches.head rfl hreach, hw'⟩

/-- A lookup that is answered at once. -/
lemma ends_lookup_answered {name : Name} {early : Bool} {object : Option S.Object} {w : World S}
    (h : (w.registry r).lookup name early = .answered object) :
    Ends caller (Script.lookup r name early) w (.ok object) w := by
  refine Reaches.head ?_ (Reaches.refl _)
  simp only [Config.start, Script.lookup, step, stepScript, h]

/-- A lookup that runs an early factory to its end. -/
lemma exists_ends_lookup_expose {name : Name} {early : Bool} {factory : S.Factory}
    {g : Registry S} {result : Except Error S.Object} {w w₁ : World S}
    (h : (w.registry r).lookup name early = .expose factory g)
    (hf : Ends caller (caller.factory factory)
      ((w.setRegistry r g).write (.started r name (.exposure factory))) result w₁)
    (hq : QuietlyObserved caller r view
      ((w₁.registry r).finishExposure name factory result).registry) :
    ∃ w', Ends caller (Script.lookup r name early) w
        ((w₁.registry r).finishExposure name factory result).answer w' ∧
      w₁.Becomes r view ((w₁.registry r).finishExposure name factory result).registry
        ((((w₁.registry r).finishExposure name factory result).lines r).filterMap view) w' := by
  have hrun : Reaches caller
      ⟨.factory, .script (caller.factory factory), .exposing r name factory .done .bottom,
        (w.setRegistry r g).write (.started r name (.exposure factory))⟩
      ⟨.factory, .script (.done result), .exposing r name factory .done .bottom, w₁⟩ :=
    Ends.reaches_done hf
  obtain ⟨w', hreach, hw'⟩ := exists_reaches_commit _
    (fun answer => .script (.done answer)) Stack.bottom w₁ hq
  refine ⟨w', Reaches.head ?_ (hrun.trans (Reaches.head rfl hreach)), hw'⟩
  simp only [Config.start, Script.lookup, step, stepScript, h]

/-- A request that is answered without a factory. -/
lemma ends_obtain_answered {name : Name} {factory : S.Factory} {answer : Except Error S.Object}
    {notices : List Notice} {w : World S}
    (h : (w.registry r).demand name = .answered answer notices) :
    Ends caller (Script.obtain r name factory) w answer (w.log r notices) := by
  refine Reaches.head ?_ (Reaches.refl _)
  simp only [Config.start, Script.obtain, step, stepScript, h]

/-- The world in which the factory of a creation starts. -/
def World.creating (w : World S) (r : S.Index) (name : Name) (factory : S.Factory)
    (g : Registry S) : World S :=
  ((w.setRegistry r g).log r [.creating name]).write (.started r name (.creation factory))

@[simp] lemma World.registry_creating (w : World S) (name : Name) (factory : S.Factory)
    (g : Registry S) : (w.creating r name factory g).registry r = g :=
  World.registry_setRegistry_self w r g

lemma World.seen_creating (w : World S) (name : Name) (factory : S.Factory) (g : Registry S) :
    (w.creating r name factory g).seen view = w.seen view ++
      [.notice r (.creating name), .started r name (.creation factory)].filterMap view := by
  rw [World.creating, World.seen_write, World.seen_log, World.seen_setRegistry, List.append_assoc,
    ← List.filterMap_append]
  rfl

/-- A request that runs a factory to its end. -/
lemma exists_ends_obtain_create {name : Name} {factory : S.Factory} {opened : Bool}
    {g : Registry S} {result : Except Error S.Object} {w w₁ : World S}
    (h : (w.registry r).demand name = .create g opened)
    (hf : Ends caller (caller.factory factory) (w.creating r name factory g) result w₁)
    (hq : QuietlyObserved caller r view
      ((w₁.registry r).finishCreation name opened result).registry) :
    ∃ w', Ends caller (Script.obtain r name factory) w
        ((w₁.registry r).finishCreation name opened result).answer w' ∧
      w₁.Becomes r view ((w₁.registry r).finishCreation name opened result).registry
        ((((w₁.registry r).finishCreation name opened result).lines r).filterMap view) w' := by
  have hrun : Reaches caller
      ⟨.factory, .script (caller.factory factory), .creating r name opened .done .bottom,
        w.creating r name factory g⟩
      ⟨.factory, .script (.done result), .creating r name opened .done .bottom, w₁⟩ :=
    Ends.reaches_done hf
  obtain ⟨w', hreach, hw'⟩ := exists_reaches_commit _
    (fun answer => .script (.done answer)) Stack.bottom w₁ hq
  refine ⟨w', Reaches.head ?_ (hrun.trans (Reaches.head rfl hreach)), hw'⟩
  simp only [Config.start, Script.obtain, step, stepScript, h, World.creating]

/-- A request that ends and starts a factory comes to the end of the factory. -/
lemma exists_ends_factory {name : Name} {factory : S.Factory} {opened : Bool} {g : Registry S}
    {answer : Except Error S.Object} {w w' : World S}
    (h : (w.registry r).demand name = .create g opened)
    (hends : Ends caller (Script.obtain r name factory) w answer w') :
    ∃ result w₁, Ends caller (caller.factory factory) (w.creating r name factory g) result w₁ := by
  have hstart : Reaches caller (Config.start (Script.obtain r name factory) w)
      ⟨.factory, .script (caller.factory factory), .creating r name opened .done .bottom,
        w.creating r name factory g⟩ := by
    refine Reaches.head ?_ (Reaches.refl _)
    simp only [Config.start, Script.obtain, step, stepScript, h, World.creating]
  have hrest := hstart.to_done hends
  rw [← start_inside] at hrest
  obtain ⟨result, w₁, hfactory, -⟩ := hrest.of_inside
  exact ⟨result, w₁, hfactory⟩

/-! ### Calls with something after them -/

section After

variable {w w₁ w₂ : World S} {b : α}

/-- A lookup, and what follows it. -/
lemma Ends.find {name : Name} {early : Bool} {answer : Except Error (Option S.Object)}
    {next : Except Error (Option S.Object) → Script S α}
    (h : Ends caller (Script.lookup r name early) w answer w₁)
    (h' : Ends caller (next answer) w₁ b w₂) : Ends caller (.find r name early next) w b w₂ :=
  h.bind h'

/-- A request, and what follows it. -/
lemma Ends.demand {name : Name} {factory : S.Factory} {answer : Except Error S.Object}
    {next : Except Error S.Object → Script S α}
    (h : Ends caller (Script.obtain r name factory) w answer w₁)
    (h' : Ends caller (next answer) w₁ b w₂) : Ends caller (.demand r name factory next) w b w₂ :=
  h.bind h'

/-- An operation that runs no code of the caller, and what follows it. -/
lemma Ends.call {u : Update S} {answer : u.Answer} {next : u.Answer → Script S α}
    (h : Ends caller (Script.update r u) w answer w₁) (h' : Ends caller (next answer) w₁ b w₂) :
    Ends caller (.call r u next) w b w₂ :=
  h.bind h'

/-- A note, and what follows it. -/
lemma Ends.note {content : S.Note} {next : Script S α}
    (h : Ends caller next (w.write (.note content)) b w₂) :
    Ends caller (.note content next) w b w₂ :=
  Reaches.head rfl h

end After

end InstanceRegistry
