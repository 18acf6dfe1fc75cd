/-!
Where a step stands in a session: its place among the steps of the session, or among those of a
program that an earlier step supplied.

* `Path`, `Path.child`: the numbers from the outermost step inwards;
* `Path.text`: the numbers parted by points.
-/

namespace InstanceRegistry.Scenario

/-- The place of a step: the number of a step of the session, then, each time, the number of a step
of the program that the step before supplied. -/
structure Path where
  indices : List Nat
  deriving DecidableEq

/-- The step at this place among the steps of the session. -/
def Path.top (i : Nat) : Path := ⟨[i]⟩

/-- The step at this place in the program that the path's own step supplied. -/
def Path.child (p : Path) (i : Nat) : Path := ⟨p.indices ++ [i]⟩

/-- The text of a path. -/
def Path.text (p : Path) : String := ".".intercalate (p.indices.map toString)

end InstanceRegistry.Scenario
