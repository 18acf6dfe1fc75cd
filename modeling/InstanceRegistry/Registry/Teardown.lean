import InstanceRegistry.Registry.Basic

/-!
The destruction of names, as a list of tasks. A name goes in this order: it leaves the caches, what
depends on it is destroyed, its disposer runs, what it contains is destroyed, and at last it is
forgotten among the relations.

* `Task`: what is to be done;
* `Registry.beginDestroy`, `Registry.openContents`, `Registry.forget`: the destruction of one name;
* `Registry.announceDestroyAll`, `Registry.beginDestroyAll`, `Registry.reset`: the destruction of
  every name that has a disposer;
* `Registry.reportFailure`: what a failing disposer comes to.
-/

namespace InstanceRegistry

/-- A part of a destruction. -/
inductive Task (S : Setup) where
  /-- Destroys a name. -/
  | destroy (name : Name)
  /-- Runs the disposer of a name. -/
  | dispose (name : Name) (disposer : S.Disposer)
  /-- Destroys what a name contains. -/
  | destroyContents (name : Name)
  /-- Ends the destruction of a name. -/
  | forget (name : Name)
  /-- Destroys every name that has a disposer. -/
  | destroyAll
  /-- Ends the destruction of all. -/
  | reset

namespace Registry

variable {S : Setup}

/-- Drops a name from the caches and takes its disposer and its dependents out. The dependents are
destroyed in order, then the disposer runs, and the contents follow. -/
def beginDestroy (g : Registry S) (name : Name) : Change S (List (Task S)) :=
  let purged := g.purge name
  let own := (g.disposers.get? name).toList.map (Task.dispose name)
  let dependents := g.dependentsOf name
  { registry :=
      { purged with
        disposers := g.disposers.erase name
        relations := g.relations.takeDependents name }
    answer := dependents.map Task.destroy ++ own ++ [.destroyContents name, .forget name]
    notices := if g.hasDependents name then [.dependentsFirst name dependents] else [] }

/-- Takes the contents of a name out, to be destroyed in order. -/
def openContents (g : Registry S) (name : Name) : Change S (List (Task S)) where
  registry := { g with relations := g.relations.takeContents name }
  answer := (g.containedIn name).map Task.destroy

/-- Forgets that a name depends on anything, and reports its destruction. -/
def forget (g : Registry S) (name : Name) : Change S (List (Task S)) where
  registry := { g with relations := g.relations.scrub name }
  answer := []
  event := some (.destroyed name)

/-- Announces the destruction of all, which begins after the announcement. -/
def announceDestroyAll (g : Registry S) : Change S (List (Task S)) where
  registry := g
  answer := [.destroyAll]
  notices := [.destroyingAll g.summary]
  event := some .destroyAll

/-- Forbids creations, and destroys the names that have a disposer, the last one first. -/
def beginDestroyAll (g : Registry S) : Change S (List (Task S)) where
  registry := { g with inDestruction := true }
  answer := g.disposerNames.reverse.map Task.destroy ++ [.reset]

/-- Empties the relations and the caches, and allows creations again. -/
def reset (g : Registry S) : Change S (List (Task S)) where
  registry := { g with relations := {} }.clearCaches
  answer := []

/-- Reports the failure of a disposer. Nothing else comes of it. -/
def reportFailure (g : Registry S) (name : Name) (failure : Error) : Change S (List (Task S)) where
  registry := g
  answer := []
  notices := [.disposerFailed name failure.message]
  event := some (.destroyFailed name failure.message)

end Registry

end InstanceRegistry
