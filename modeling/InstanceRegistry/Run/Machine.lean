import InstanceRegistry.Run.Script
import InstanceRegistry.Run.World

/-!
Running scripts. A run is a sequence of configurations: a script or a destruction under way, below
it the calls that wait for its end, and the state of the world.

* `Role`, `Role.Result`: who runs, and what it ends with;
* `Activity`: a script, or the tasks of a destruction and the script that called for it;
* `Stack`: the calls that wait, the innermost first;
* `Config`, `step`: the configurations and their succession;
* `report`, `commit`, `resume`: how an event is reported, how a change of a registry is made, and
  how the end of a script wakes the call that waits for it;
* `run`: the configuration after so many steps, or at the end of the run.

Whatever runs code of a caller pushes a frame, and the end of that code takes the frame away. So the
frames of a stack are the creations, the handings out, the disposals and the reports that are under
way at that moment.
-/

namespace InstanceRegistry

/-! ### Configurations -/

/-- Who runs. -/
inductive Role where
  /-- The script that the run began with. -/
  | client
  /-- A factory, of a creation or of a lookup. -/
  | factory
  /-- A disposer. -/
  | disposer
  /-- An observer. -/
  | observer
  deriving DecidableEq

/-- What a script ends with, by the role in which it runs; `α` is the result of the whole run. -/
@[reducible] def Role.Result (S : Setup) (α : Type) : Role → Type
  | client => α
  | factory => Except Error S.Object
  | disposer => Except Error Unit
  | observer => Unit

/-- What is being done. -/
inductive Activity (S : Setup) (α : Type) : Type where
  /-- A script goes on. -/
  | script (s : Script S α)
  /-- The tasks of a destruction are left to do, and then the script goes on. -/
  | teardown (r : S.Index) (tasks : List (Task S)) (next : Script S α)

/-- The calls that wait for the end of a script, by the role in which that script runs. -/
inductive Stack (S : Setup) (α : Type) : Role → Type where
  /-- Nothing waits. -/
  | bottom : Stack S α .client
  /-- A creation waits for its factory. -/
  | creating {role : Role} (r : S.Index) (name : Name) (opened : Bool)
      (next : Except Error S.Object → Script S (role.Result S α)) (below : Stack S α role) :
      Stack S α .factory
  /-- A lookup waits for its early factory. -/
  | exposing {role : Role} (r : S.Index) (name : Name) (factory : S.Factory)
      (next : Except Error (Option S.Object) → Script S (role.Result S α))
      (below : Stack S α role) : Stack S α .factory
  /-- A destruction waits for a disposer. -/
  | disposing {role : Role} (r : S.Index) (name : Name) (tasks : List (Task S))
      (next : Script S (role.Result S α)) (below : Stack S α role) :
      Stack S α .disposer
  /-- Whatever reported an event waits for the observer. -/
  | observing {role : Role} (next : Activity S (role.Result S α)) (below : Stack S α role) :
      Stack S α .observer

/-- A moment of a run. -/
structure Config (S : Setup) (α : Type) where
  role : Role
  activity : Activity S (role.Result S α)
  stack : Stack S α role
  world : World S

namespace Config

variable {S : Setup} {α : Type}

/-- The beginning of a run. -/
def start (s : Script S α) (w : World S) : Config S α := ⟨.client, .script s, .bottom, w⟩

/-- The result of the run, at its end. -/
def result? : Config S α → Option α
  | ⟨.client, .script (.done result), .bottom, _⟩ => some result
  | _ => none

@[simp] theorem result?_start_done (result : α) (w : World S) :
    (start (.done result) w).result? = some result := rfl

end Config

/-! ### Steps -/

section Step

variable {S : Setup} {α β : Type} (caller : Caller S)

/-- Reports an event, if there is one, and then goes on. -/
def report {role : Role} (r : S.Index) (event : Option Event)
    (next : Activity S (role.Result S α)) (stack : Stack S α role) (w : World S) : Config S α :=
  match event with
  | none => ⟨role, next, stack, w⟩
  | some e =>
    match (w.registry r).observer with
    | none => ⟨role, next, stack, w.write (.event r e)⟩
    | some o =>
      ⟨.observer, .script (caller.observer o e), .observing next stack, w.write (.event r e)⟩

/-- Makes a change of a registry, reports its event, and then goes on with its answer. -/
def commit {role : Role} (r : S.Index) (change : Registry.Change S β)
    (next : β → Activity S (role.Result S α)) (stack : Stack S α role) (w : World S) : Config S α :=
  report caller r change.event (next change.answer) stack (w.carry r change)

/-- Makes a change that is a part of a destruction. Its own tasks come before the rest. -/
def proceed {role : Role} (r : S.Index) (change : Registry.Change S (List (Task S)))
    (tasks : List (Task S)) (next : Script S (role.Result S α)) (stack : Stack S α role)
    (w : World S) : Config S α :=
  commit caller r change (fun ahead => .teardown r (ahead ++ tasks) next) stack w

/-- Goes on with the call that waits for a result. -/
def resume {role : Role} :
    Stack S α role → role.Result S α → World S → Config S α
  | .bottom, result, w => ⟨.client, .script (.done result), .bottom, w⟩
  | .creating r name opened next below, result, w =>
    commit caller r ((w.registry r).finishCreation name opened result) (.script <| next ·) below w
  | .exposing r name factory next below, result, w =>
    commit caller r ((w.registry r).finishExposure name factory result) (.script <| next ·) below w
  | .disposing r _ tasks next below, .ok (), w => ⟨_, .teardown r tasks next, below, w⟩
  | .disposing r name tasks next below, .error failure, w =>
    proceed caller r ((w.registry r).reportFailure name failure) tasks next below w
  | .observing next below, (), w => ⟨_, next, below, w⟩

/-- One step of a script. -/
def stepScript {role : Role} (stack : Stack S α role) (w : World S) :
    Script S (role.Result S α) → Config S α
  | .done result => resume caller stack result w
  | .read next => ⟨role, .script (next w.memory), stack, w⟩
  | .store change next => ⟨role, .script next, stack, { w with memory := change w.memory }⟩
  | .note content next => ⟨role, .script next, stack, w.write (.note content)⟩
  | .make value next => ⟨role, .script (next (w.make value).2), stack, (w.make value).1⟩
  | .view r next => ⟨role, .script (next (w.registry r)), stack, w⟩
  | .call r u next => commit caller r ((w.registry r).apply u) (.script <| next ·) stack w
  | .find r name early next =>
    match (w.registry r).lookup name early with
    | .answered object => ⟨role, .script (next (.ok object)), stack, w⟩
    | .expose factory g =>
      ⟨.factory, .script (caller.factory factory), .exposing r name factory next stack,
        (w.setRegistry r g).write (.started r name (.exposure factory))⟩
  | .demand r name factory next =>
    match (w.registry r).demand name with
    | .answered answer notices => ⟨role, .script (next answer), stack, w.log r notices⟩
    | .create g opened =>
      ⟨.factory, .script (caller.factory factory), .creating r name opened next stack,
        ((w.setRegistry r g).log r [.creating name]).write (.started r name (.creation factory))⟩
  | .tearDown r name next => ⟨role, .teardown r [.destroy name] next, stack, w⟩
  | .tearDownAll r next =>
    commit caller r (w.registry r).announceDestroyAll (.teardown r · next) stack w

/-- One step of a destruction. -/
def stepTeardown {role : Role} (r : S.Index) (next : Script S (role.Result S α))
    (stack : Stack S α role) (w : World S) : List (Task S) → Config S α
  | [] => ⟨role, .script next, stack, w⟩
  | .dispose name disposer :: tasks =>
    ⟨.disposer, .script (caller.disposer disposer), .disposing r name tasks next stack,
      w.write (.started r name (.disposal disposer))⟩
  | .destroy name :: tasks =>
    proceed caller r ((w.registry r).beginDestroy name) tasks next stack w
  | .destroyContents name :: tasks =>
    proceed caller r ((w.registry r).openContents name) tasks next stack w
  | .forget name :: tasks => proceed caller r ((w.registry r).forget name) tasks next stack w
  | .destroyAll :: tasks => proceed caller r (w.registry r).beginDestroyAll tasks next stack w
  | .reset :: tasks => proceed caller r (w.registry r).reset tasks next stack w

/-- The configuration after the next step; at the end of a run nothing changes. -/
def step (c : Config S α) : Config S α :=
  match c.activity with
  | .script s => stepScript caller c.stack c.world s
  | .teardown r tasks next => stepTeardown caller r next c.stack c.world tasks

/-- The configuration after so many steps, or at the end of the run if that comes first. -/
def run : Nat → Config S α → Config S α
  | 0, c => c
  | steps + 1, c =>
    match c.result? with
    | some _ => c
    | none => run steps (step caller c)

/-- Nothing changes after the end of a run. -/
theorem step_eq_of_result? {c : Config S α} {result : α} (h : c.result? = some result) :
    step caller c = c := by
  unfold Config.result? at h
  split at h
  · rfl
  · exact absurd h (by simp)

/-- A run that has ended stays as it is, however many steps it is given. -/
theorem run_of_result? {c : Config S α} {result : α} (h : c.result? = some result) (steps : Nat) :
    run caller steps c = c := by
  cases steps with
  | zero => rfl
  | succ steps => simp only [run, h]

end Step

end InstanceRegistry
