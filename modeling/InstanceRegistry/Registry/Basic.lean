import InstanceRegistry.Alias.Table
import InstanceRegistry.Error
import InstanceRegistry.Event
import InstanceRegistry.Notice
import InstanceRegistry.Object
import InstanceRegistry.Relations
import InstanceRegistry.Setup

/-!
The state of a registry, and what can be asked of it.

* `Registry`: the caches, the marks of what is being created, the disposers, the relations and the
  aliases;
* `Registry.contains`, `Registry.knownNames`, `Registry.isMarked`, `Registry.isInCreation`,
  `Registry.isDependent`: the questions;
* `Registry.bind`, `Registry.purge`, `Registry.clearCaches`: what the operations do to the caches;
* `Registry.Change`: what an operation amounts to.
-/

namespace InstanceRegistry

/-- A registry of shared objects. -/
structure Registry (S : Setup) where
  /-- The finished objects. -/
  objects : NameMap S.Object := ∅
  /-- The factories that can hand out an object while it is under construction. -/
  earlyFactories : NameMap S.Factory := ∅
  /-- The objects that were handed out while under construction. -/
  earlyReferences : NameMap S.Object := ∅
  /-- The names that were put into a cache, in order. -/
  known : NameSet := ∅
  /-- The errors reported during the outermost creation; nothing outside of creations. -/
  suppressed : Option (List Error) := none
  /-- Whether all objects are being destroyed. -/
  inDestruction : Bool := false
  /-- The names marked as being created. -/
  inCreation : NameSet := ∅
  /-- The names whose creation is not to be marked. -/
  excluded : NameSet := ∅
  /-- What is to run when a name is destroyed. -/
  disposers : NameMap S.Disposer := ∅
  /-- The containments and dependencies. -/
  relations : Relations := {}
  /-- The aliases. -/
  aliases : AliasTable := {}
  /-- What is told of events. -/
  observer : Option S.Observer := none

namespace Registry

variable {S : Setup}

instance : Inhabited (Registry S) := ⟨{}⟩

/-- The empty registry with or without the permission to change the target of an alias. -/
def withOverriding (allowed : Bool) : Registry S :=
  { aliases := { overriding := allowed } }

/-! ### Questions -/

/-- The finished object of a name. -/
def object? (g : Registry S) (name : Name) : Option S.Object := g.objects.get? name

/-- Whether a finished object is bound to the name. -/
def contains (g : Registry S) (name : Name) : Bool := name ∈ g.objects

/-- The names that were put into a cache and not dropped since, in order. -/
def knownNames (g : Registry S) : List Name := g.known.names

/-- The number of known names. -/
def count (g : Registry S) : Nat := g.known.size

/-- Whether the name is marked as being created. -/
def isMarked (g : Registry S) (name : Name) : Bool := name ∈ g.inCreation

/-- Whether the name is being created, as far as that is tracked. -/
def isInCreation (g : Registry S) (name : Name) : Bool :=
  name ∉ g.excluded && g.isMarked name

/-- The names with a disposer, in order of registration. -/
def disposerNames (g : Registry S) : List Name := g.disposers.names

/-- The name that a name stands for in the end. -/
def canonical (g : Registry S) (name : Name) : Name := g.aliases.canonical name

/-- Whether `dependent` depends on `name`, directly or by way of others, under any alias. -/
def isDependent (g : Registry S) (name dependent : Name) : Bool :=
  g.relations.isDependent g.canonical name dependent

/-- Whether anything is recorded as a dependent of the name. -/
def hasDependents (g : Registry S) (name : Name) : Bool := g.relations.hasDependents name

/-- What depends on the name directly, in order of registration. -/
def dependentsOf (g : Registry S) (name : Name) : List Name :=
  g.relations.dependents.successors name

/-- What the name depends on directly, in order of registration. -/
def dependenciesOf (g : Registry S) (name : Name) : List Name :=
  g.relations.dependencies.successors name

/-- What the name contains, in order of registration. -/
def containedIn (g : Registry S) (name : Name) : List Name :=
  g.relations.contents.successors name

/-- What the text of the registry shows. -/
def summary (g : Registry S) : Summary where
  names := g.knownNames
  inCreation := g.inCreation.size
  aliases := g.aliases.size

/-- The text of the registry. -/
def text (g : Registry S) : String := g.summary.text

/-- The text of the aliases of the registry. -/
def aliasText (g : Registry S) : String := g.aliases.text g.observer.isSome

/-! ### The caches -/

/-- Binds a finished object, whatever was in the caches. -/
def bind (g : Registry S) (name : Name) (object : S.Object) : Registry S :=
  { g with
    objects := g.objects.insert name object
    earlyFactories := g.earlyFactories.erase name
    earlyReferences := g.earlyReferences.erase name
    known := g.known.add name }

/-- Drops a name from all caches. -/
def purge (g : Registry S) (name : Name) : Registry S :=
  { g with
    objects := g.objects.erase name
    earlyFactories := g.earlyFactories.erase name
    earlyReferences := g.earlyReferences.erase name
    known := g.known.erase name }

/-- Empties all caches and ends the destruction of all objects. -/
def clearCaches (g : Registry S) : Registry S :=
  { g with
    objects := ∅
    earlyFactories := ∅
    earlyReferences := ∅
    known := ∅
    inDestruction := false }

/-! ### Changes -/

/-- What an operation amounts to: the registry after it, its answer, its log lines, and then the
event to be reported. -/
structure Change (S : Setup) (α : Type) where
  registry : Registry S
  answer : α
  notices : List Notice := []
  event : Option Event := none

end Registry

end InstanceRegistry
