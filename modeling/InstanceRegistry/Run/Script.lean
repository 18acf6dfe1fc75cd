import InstanceRegistry.Registry.Update

/-!
What the callers of registries do: scripts, which keep a state of their own, make objects, look at
registries and call them.

* `Script`: a step and what follows each of its answers, down to a result;
* `Script.bind`: one script after another;
* `Script.update`, `Script.lookup`, `Script.obtain`, `Script.destroy`, `Script.destroyAll`: the
  operations of a registry, each as a script;
* `Caller`: the scripts behind the identifiers of factories, disposers and observers.

The operations that run no code of the caller are the `Update`s. The other four may run factories,
disposers and observers, which are scripts themselves and may call any registry in their turn.
-/

namespace InstanceRegistry

/-- A script with a result in `α`. -/
inductive Script (S : Setup) (α : Type) : Type where
  /-- Ends with a result. -/
  | done (result : α)
  /-- Reads the memory. -/
  | read (next : S.Memory → Script S α)
  /-- Changes the memory. -/
  | store (change : S.Memory → S.Memory) (next : Script S α)
  /-- Writes a note into the journal. -/
  | note (content : S.Note) (next : Script S α)
  /-- Makes a new object. -/
  | make (value : S.Value) (next : S.Object → Script S α)
  /-- Looks at a registry. -/
  | view (r : S.Index) (next : Registry S → Script S α)
  /-- Calls an operation that runs no code of the caller. -/
  | call (r : S.Index) (u : Update S) (next : u.Answer → Script S α)
  /-- Looks a name up; `early` allows the object of an early factory. -/
  | find (r : S.Index) (name : Name) (early : Bool)
      (next : Except Error (Option S.Object) → Script S α)
  /-- Asks for the object of a name, to be created by the factory if it is absent. -/
  | demand (r : S.Index) (name : Name) (factory : S.Factory)
      (next : Except Error S.Object → Script S α)
  /-- Destroys a name. -/
  | tearDown (r : S.Index) (name : Name) (next : Script S α)
  /-- Destroys every name that has a disposer. -/
  | tearDownAll (r : S.Index) (next : Script S α)

namespace Script

variable {S : Setup} {α β : Type}

/-! ### Sequences -/

/-- One script after another, which gets the result of the first. -/
def bind : Script S α → (α → Script S β) → Script S β
  | done result, f => f result
  | read next, f => read fun memory => (next memory).bind f
  | store change next, f => store change (next.bind f)
  | note content next, f => note content (next.bind f)
  | make value next, f => make value fun object => (next object).bind f
  | view r next, f => view r fun registry => (next registry).bind f
  | call r u next, f => call r u fun answer => (next answer).bind f
  | find r name early next, f => find r name early fun answer => (next answer).bind f
  | demand r name factory next, f => demand r name factory fun answer => (next answer).bind f
  | tearDown r name next, f => tearDown r name (next.bind f)
  | tearDownAll r next, f => tearDownAll r (next.bind f)

instance : Monad (Script S) where
  pure := done
  bind := bind

@[simp] theorem bind_done (result : α) (f : α → Script S β) : (done result).bind f = f result := rfl

/-- A script without anything after it. -/
theorem bind_pure (s : Script S α) : s.bind done = s := by
  induction s with
  | done => rfl
  | store change next ih => simp only [bind, ih]
  | note content next ih => simp only [bind, ih]
  | tearDown r name next ih => simp only [bind, ih]
  | tearDownAll r next ih => simp only [bind, ih]
  | read next ih => simp only [bind, ih]
  | make value next ih => simp only [bind, ih]
  | view r next ih => simp only [bind, ih]
  | call r u next ih => simp only [bind, ih]
  | find r name early next ih => simp only [bind, ih]
  | demand r name factory next ih => simp only [bind, ih]

/-! ### Single steps -/

/-- The memory. -/
def memory : Script S S.Memory := read done

/-- Changes the memory. -/
def modify (change : S.Memory → S.Memory) : Script S Unit := store change (done ())

/-- Writes a note into the journal. -/
def write (content : S.Note) : Script S Unit := note content (done ())

/-- A new object. -/
def newObject (value : S.Value) : Script S S.Object := make value done

/-- A registry as it stands. -/
def registry (r : S.Index) : Script S (Registry S) := view r done

/-- Calls an operation that runs no code of the caller. -/
def update (r : S.Index) (u : Update S) : Script S u.Answer := call r u done

/-- Looks a name up. -/
def lookup (r : S.Index) (name : Name) (early : Bool) : Script S (Except Error (Option S.Object)) :=
  find r name early done

/-- The object of a name, created by the factory if it is absent. -/
def obtain (r : S.Index) (name : Name) (factory : S.Factory) : Script S (Except Error S.Object) :=
  demand r name factory done

/-- Destroys a name. -/
def destroy (r : S.Index) (name : Name) : Script S Unit := tearDown r name (done ())

/-- Destroys every name that has a disposer. -/
def destroyAll (r : S.Index) : Script S Unit := tearDownAll r (done ())

end Script

/-- The scripts behind the identifiers that registries keep. -/
structure Caller (S : Setup) where
  /-- A factory ends with the object or with a failure. -/
  factory : S.Factory → Script S (Except Error S.Object)
  /-- A disposer may fail. -/
  disposer : S.Disposer → Script S (Except Error Unit)
  /-- An observer is told of an event. -/
  observer : S.Observer → Event → Script S Unit

end InstanceRegistry
