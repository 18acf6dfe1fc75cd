import InstanceRegistry.Typed

/-!
The visible state of a registry.

* `Aspects`: what is remarkable about a name;
* `Snapshot`: the listings of a registry, with the aspects of watched names;
* `Snapshot.take`: the visible state of a table of aliases and a registry.
-/

namespace InstanceRegistry.Scenario

/-- What is remarkable about a name; the defaults are not. -/
structure Aspects where
  contains : Bool := false
  containsCanonical : Bool := false
  inCreation : Bool := false
  marked : Bool := false
  isAlias : Bool := false
  hasDependents : Bool := false
  aliases : List Name := []
  dependents : List Name := []
  dependencies : List Name := []
  contained : List Name := []
  /-- What the name stands for, if that is another name. -/
  canonical : Option Name := none
  deriving DecidableEq

/-- The visible state of a registry. -/
structure Snapshot where
  names : List Name
  count : Nat
  disposers : List Name
  aliasCount : Nat
  /-- The watched names about which something is remarkable; nothing if no name is watched. -/
  watched : Option (List (Name × Aspects))

variable {S : Setup}

/-- What is remarkable about a name, in a registry and in the registry whose aliases count. -/
def Aspects.of (owner g : Registry S) (name : Name) : Aspects where
  contains := g.contains name
  containsCanonical := g.containsCanonical name
  inCreation := g.isInCreation name
  marked := g.isMarked name
  isAlias := owner.aliases.isAlias name
  hasDependents := g.hasDependents name
  aliases := owner.aliases.aliasesOf name
  dependents := g.dependentsOf name
  dependencies := g.dependenciesOf name
  contained := g.containedIn name
  canonical := if owner.canonical name = name then none else some (owner.canonical name)

/-- The visible state of a registry, with the aliases of their `owner`. -/
def Snapshot.take (owner g : Registry S) (watch : List Name) : Snapshot where
  names := g.knownNames
  count := g.count
  disposers := g.disposerNames
  aliasCount := owner.aliases.size
  watched :=
    if watch.isEmpty then none
    else some ((watch.map fun name => (name, Aspects.of owner g name)).filter (·.2 ≠ {}))

end InstanceRegistry.Scenario
