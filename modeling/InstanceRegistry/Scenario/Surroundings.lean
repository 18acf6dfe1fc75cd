import InstanceRegistry.Run.Script
import InstanceRegistry.Scenario.Action
import InstanceRegistry.Scenario.Record

/-!
What a session brings to its run.

* `Supplied`, `Disposal`, `Watcher`: factories, disposers and observers in the form in which
  registries keep them;
* `Memory`: the variables of a session and the numbers of runs of its programs;
* `surroundings`: the types of a run of a session.
-/

namespace InstanceRegistry.Scenario

/-- A factory as it was supplied. -/
structure Supplied (n : Nat) where
  /-- The step that supplied it. -/
  path : Path
  program : Factory n
  /-- The counter of its runs. -/
  counter : Nat
  /-- Only the value of what it ends with counts, and goes into a new object. -/
  byValue : Bool

/-- A disposer as it was supplied. -/
structure Disposal (n : Nat) where
  /-- The step that supplied it. -/
  path : Path
  program : Disposer n
  /-- The counter of its runs. -/
  counter : Nat

/-- An observer with the registries that it watches. -/
structure Watcher (n : Nat) where
  place : Place n
  mode : Mode n

/-- The variables of a session, and how many runs each counter has counted. -/
structure Memory where
  holdings : NameMap (Object .basic) := ∅
  runs : List Nat := []

namespace Memory

/-- The memory in which a variable holds the object, or nothing. -/
def assign (m : Memory) (x : Variable) : Option (Object .basic) → Memory
  | some o => { m with holdings := m.holdings.insert x o }
  | none => { m with holdings := m.holdings.erase x }

/-- The memory with one more counter. -/
def addCounter (m : Memory) : Memory := { m with runs := m.runs ++ [0] }

/-- The number of runs that a counter has counted. -/
def earlierRuns (m : Memory) (counter : Nat) : Nat := m.runs.getD counter 0

/-- The memory after one more run. -/
def countRun (m : Memory) (counter : Nat) : Memory :=
  { m with runs := m.runs.modify counter (· + 1) }

end Memory

/-- The types of a run of a session with registries numbered below `n`. -/
abbrev surroundings (n : Nat) : Setup where
  toValues := .basic
  registries := n
  Factory := Supplied n
  Disposer := Disposal n
  Observer := Watcher n
  Memory := Memory
  Note := Record (Object .basic)

end InstanceRegistry.Scenario
