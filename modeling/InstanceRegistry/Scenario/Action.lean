import InstanceRegistry.Object
import InstanceRegistry.Error
import InstanceRegistry.Scenario.Resolver

/-!
The language of sessions: the steps that callers take, one after another, and the programs that they
hand to registries, whose steps are of the same kind.

* `Place`: the registries that a step works on;
* `Source`, `Return`: where an object comes from, and what a factory ends with;
* `Question`: what can be asked of a registry without changing it;
* `Mode`: what an observer does with an event;
* `Step`, `Action`, `Factory`, `Disposer`: the steps and the programs of registries numbered below
  `n`.
-/

namespace InstanceRegistry.Scenario

/-- A variable of a session, which holds an object or nothing. -/
abbrev Variable := String

/-- The registries that a step works on. They are the same unless a table of aliases is used on its
own; then another registry stands behind all else. -/
structure Place (n : Nat) where
  /-- Whose aliases and whose observer. -/
  aliases : Fin n
  /-- Whose objects and relations. -/
  objects : Fin n

/-- One registry for everything. -/
def Place.one {n : Nat} (r : Fin n) : Place n := ⟨r, r⟩

/-- Where an object comes from. -/
inductive Source where
  /-- It is made for the purpose. -/
  | fresh (value : Value)
  /-- A variable holds it. -/
  | held (x : Variable)

/-- What a factory ends with. -/
inductive Return where
  | object (source : Source)
  | failure (error : Error)

/-- What can be asked of a registry. -/
inductive Question where
  | hasAlias (name key : Name)
  | isAlias (name : Name)
  | aliasesOf (name : Name)
  | canonical (name : Name)
  | aliasCount
  | overriding
  | aliasText
  | contains (name : Name)
  | containsCanonical (name : Name)
  | names
  | count
  | isInCreation (name : Name)
  | isMarked (name : Name)
  | text
  | isDependent (name dependent : Name)
  | hasDependents (name : Name)
  | dependentsOf (name : Name)
  | dependenciesOf (name : Name)
  | containedIn (name : Name)
  | disposerNames
  /-- The visible state, with the aspects of the watched names. -/
  | state (watch : List Name)

/-- What an observer does with an event, apart from noting it. -/
inductive Mode (n : Nat) where
  /-- Nothing. -/
  | plain
  /-- It takes the visible state, with the aspects of the watched names. -/
  | snapshot (watch : List Name)
  /-- It takes itself away first. -/
  | once
  /-- It first registers the text of the event with another registry. -/
  | forward (target : Fin n)

/-- How a step is taken. -/
structure Manner (n : Nat) where
  place : Place n
  /-- The variable that gets the object of the answer, or loses its own. -/
  assign : Option Variable := none
  /-- The step is passed over while this variable holds an object. -/
  skipIfBound : Option Variable := none
  /-- A failure ends the program that the step belongs to. -/
  stopOnFailure : Bool := false
  /-- A failure is reported to the registry, and the program goes on. -/
  suppress : Bool := false

mutual

/-- A step: what is done, and how. -/
inductive Step (n : Nat) : Type where
  | mk (manner : Manner n) (action : Action n)

/-- What a step does. -/
inductive Action (n : Nat) : Type where
  /-- Yields an object. -/
  | make (source : Source)
  /-- Asks something. -/
  | ask (question : Question)
  /-- Installs an observer, or takes it away. -/
  | setObserver (mode : Option (Mode n))
  | registerAlias (name key : Name)
  | removeAlias (key : Name)
  /-- Resolves all aliases; the calls of the resolver may be noted. -/
  | resolveAliases (resolver : Resolver) (noted : Bool)
  | lookup (name : Name) (early : Bool)
  | obtain (name : Name) (factory : Factory n)
  /-- So many callers ask for the same object with the same factory. -/
  | obtainTogether (name : Name) (callers : Nat) (factory : Factory n)
  | suppress (error : Error)
  | register (name : Name) (source : Source)
  | provideEarly (name : Name) (factory : Factory n)
  | remove (name : Name)
  | clear
  /-- Takes the steps while no other caller is let in. -/
  | exclusively (steps : List (Step n))
  | track (name : Name) (tracked : Bool)
  | contain (outer inner : Name)
  | depend (dependent dependency : Name)
  | onDestroy (name : Name) (disposer : Disposer n)
  | destroy (name : Name)
  | destroyAll
  | registerValue (name : Name) (value : Value)
  | get (name : Name) (kind : Kind)
  | getValue (name : Name) (kind : Kind)
  | obtainOf (name : Name) (kind : Kind) (factory : Factory n)
  | obtainProduct (name : Name) (kind : Kind) (description : String) (shared : Bool)
      (factory : Factory n)

/-- A factory: its steps, then what it ends with. The first run ends with the first return, the next
one with the next, and the last return is used again and again. -/
inductive Factory (n : Nat) : Type where
  | mk (steps : List (Step n)) (first : Return) (later : List Return)

/-- A disposer: its steps, and then its failure, if it fails. -/
inductive Disposer (n : Nat) : Type where
  | mk (steps : List (Step n)) (failure : Option String)

end

/-- The return of a run, by the number of runs before it. -/
def returnOf : Return → List Return → Nat → Return
  | last, [], _ => last
  | first, _, 0 => first
  | _, next :: later, earlier + 1 => returnOf next later earlier

end InstanceRegistry.Scenario
