import InstanceRegistry.Registry.Creation
import InstanceRegistry.Registry.Teardown

/-!
What a run changes: the registries, the memory of the callers, the number of objects made, and the
journal of all that can be seen from outside.

* `Work`: the code of a caller that an operation runs;
* `Entry`: a line of the journal;
* `World`: the whole state, with `World.registry`, `World.setRegistry`, `World.write`, `World.log`;
* `World.carry`: the world after a change of one registry.
-/

namespace InstanceRegistry

/-- The code of a caller that an operation runs. -/
inductive Work (S : Setup) where
  /-- The factory of a creation. -/
  | creation (factory : S.Factory)
  /-- The early factory of a lookup. -/
  | exposure (factory : S.Factory)
  /-- The disposer of a destruction. -/
  | disposal (disposer : S.Disposer)

/-- A line of the journal. -/
inductive Entry (S : Setup) where
  /-- A line in the log of a registry. -/
  | notice (r : S.Index) (content : Notice)
  /-- An event of a registry, observed or not. -/
  | event (r : S.Index) (content : Event)
  /-- An operation on the name starts the code of a caller. -/
  | started (r : S.Index) (name : Name) (work : Work S)
  /-- A note of a caller. -/
  | note (content : S.Note)

/-- The state of a run. -/
structure World (S : Setup) where
  registries : Vector (Registry S) S.registries
  memory : S.Memory
  /-- The number of objects made, which is the identity of the next one. -/
  made : Nat := 0
  journal : List (Entry S) := []

namespace World

variable {S : Setup} {α : Type}

/-- A registry as it stands. -/
def registry (w : World S) (r : S.Index) : Registry S := w.registries[r]

/-- Replaces a registry. -/
def setRegistry (w : World S) (r : S.Index) (g : Registry S) : World S :=
  { w with registries := w.registries.set r g }

/-- Adds a line to the journal. -/
def write (w : World S) (entry : Entry S) : World S :=
  { w with journal := w.journal ++ [entry] }

/-- Adds the log lines of a registry to the journal. -/
def log (w : World S) (r : S.Index) (notices : List Notice) : World S :=
  { w with journal := w.journal ++ notices.map (Entry.notice r) }

/-- The world after a change of one registry, before its event is reported. -/
def carry (w : World S) (r : S.Index) (change : Registry.Change S α) : World S :=
  (w.setRegistry r change.registry).log r change.notices

/-- Makes a new object. -/
def make (w : World S) (value : S.Value) : World S × S.Object :=
  ({ w with made := w.made + 1 }, ⟨w.made, value⟩)

@[simp] theorem registry_setRegistry_self (w : World S) (r : S.Index) (g : Registry S) :
    (w.setRegistry r g).registry r = g := by
  simp [registry, setRegistry]

theorem registry_setRegistry_of_ne (w : World S) {r s : S.Index} (h : s ≠ r) (g : Registry S) :
    (w.setRegistry r g).registry s = w.registry s := by
  have hv : r.val ≠ s.val := fun e => h (Fin.ext e.symm)
  simp [registry, setRegistry, hv]

end World

end InstanceRegistry
