import InstanceRegistry.Search

/-!
What names have to do with each other when they are destroyed: which names contain others and which
depend on others.

* `Relations`: the contents, the dependents and the dependencies of names;
* `Relations.contain`, `Relations.depend`: recording a pair;
* `Relations.isDependent`: whether a name depends on another directly or by way of others;
* `Relations.takeDependents`, `Relations.takeContents`, `Relations.scrub`: what a destruction does
  to the record.
-/

namespace InstanceRegistry

/-- The sets of names recorded under names. -/
abbrev NameGraph := NameMap NameSet

namespace NameGraph

/-- The names recorded under a name. -/
def successors (g : NameGraph) (name : Name) : List Name :=
  match NameMap.get? g name with
  | some set => set.names
  | none => []

/-- Whether `other` is recorded under `name`. -/
def linked (g : NameGraph) (name other : Name) : Bool :=
  other ∈ g.successors name

/-- Records `other` under `name`. -/
def link (g : NameGraph) (name other : Name) : NameGraph :=
  NameMap.insert g name (((NameMap.get? g name).getD ∅ : NameSet).add other)

/-- The number of recorded pairs. -/
def edges (g : NameGraph) : Nat :=
  g.entries.foldr (fun entry total => entry.2.size + total) 0

/-- Drops `other` from what is recorded under every name, and a name that has nothing left. -/
def unlinkAll (g : NameGraph) (other : Name) : NameGraph :=
  NameMap.filterMap g fun set =>
    let left := NameMap.erase set other
    if left.isEmpty then none else some left

end NameGraph

/-- The containments and dependencies between names. A dependency is recorded on both sides. -/
structure Relations where
  /-- For every container, what it contains. -/
  contents : NameGraph := ∅
  /-- For every name, what depends on it. -/
  dependents : NameGraph := ∅
  /-- For every name, what it depends on. -/
  dependencies : NameGraph := ∅
  deriving DecidableEq

namespace Relations

instance : Inhabited Relations := ⟨{}⟩

/-- Records that `outer` contains `inner`. -/
def contain (g : Relations) (outer inner : Name) : Relations :=
  { g with contents := g.contents.link outer inner }

/-- Records that `dependent` depends on `dependency`. A pair that is known among the dependents is
not recorded among the dependencies again. -/
def depend (g : Relations) (dependent dependency : Name) : Relations :=
  if g.dependents.linked dependency dependent then g
  else
    { g with
      dependents := g.dependents.link dependency dependent
      dependencies := g.dependencies.link dependent dependency }

/-- Whether anything is recorded as a dependent of the name. -/
def hasDependents (g : Relations) (name : Name) : Bool := name ∈ g.dependents

/-- Whether `dependent` depends on `name`, directly or by way of other names. The dependents of a
name are recorded under its canonical name. -/
def isDependent (g : Relations) (canonical : Name → Name) (name dependent : Name) : Bool :=
  Search.reaches (fun current => g.dependents.successors (canonical current)) dependent
    (g.dependents.edges + 1) [] [name]

/-! ### Destruction -/

/-- The record without the dependents of the name. -/
def takeDependents (g : Relations) (name : Name) : Relations :=
  { g with dependents := g.dependents.erase name }

/-- The record without the contents of the name. -/
def takeContents (g : Relations) (name : Name) : Relations :=
  { g with contents := g.contents.erase name }

/-- Forgets that the name depends on anything. -/
def scrub (g : Relations) (name : Name) : Relations :=
  { g with
    dependents := g.dependents.unlinkAll name
    dependencies := g.dependencies.erase name }

end Relations

end InstanceRegistry
