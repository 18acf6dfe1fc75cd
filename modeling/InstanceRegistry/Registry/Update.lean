import InstanceRegistry.Alias.Resolution
import InstanceRegistry.Registry.Basic

/-!
The operations of a registry that run no code of the caller.

* `Update`: the operations; `Update.Answer` is the type of what each of them answers;
* `Outcome`: what came of binding a finished object;
* `Registry.apply`: what an operation amounts to.
-/

namespace InstanceRegistry

/-- What came of binding a finished object. -/
inductive Outcome where
  /-- The object is now bound. -/
  | registered
  /-- The very same object was bound already. -/
  | alreadyPresent
  deriving DecidableEq

/-- An operation that runs no code of the caller. -/
inductive Update (S : Setup) where
  /-- Registers the alias `key` for `name`. -/
  | registerAlias (name key : Name)
  /-- Removes an alias. -/
  | removeAlias (key : Name)
  /-- Resolves all aliases and their targets. -/
  | resolveAliases (resolver : Name → Option Name)
  /-- Binds a finished object. -/
  | register (name : Name) (object : S.Object)
  /-- Installs a factory that can hand out the object of a name under construction. -/
  | provideEarly (name : Name) (factory : S.Factory)
  /-- Drops a name from the caches. -/
  | remove (name : Name)
  /-- Empties the caches. -/
  | clear
  /-- Reports an error that did not end the creation under way. -/
  | suppress (error : Error)
  /-- Has the creation of a name marked, or not. -/
  | track (name : Name) (tracked : Bool)
  /-- Records that `outer` contains `inner`. -/
  | contain (outer inner : Name)
  /-- Records that `dependent` depends on `dependency`. -/
  | depend (dependent dependency : Name)
  /-- Has a disposer run when the name is destroyed, in place of any other. -/
  | onDestroy (name : Name) (disposer : S.Disposer)
  /-- Has an observer told of the events to come, or none. -/
  | setObserver (observer : Option S.Observer)

namespace Update

variable {S : Setup}

/-- The type of an operation's answer. -/
@[reducible] def Answer : Update S → Type
  | registerAlias .. | removeAlias _ | resolveAliases _ => Except Error Unit
  | register .. => Except Error Outcome
  | _ => Unit

end Update

namespace Registry

variable {S : Setup}

/-- Registers the alias `key` for `name`. -/
def registerAlias (g : Registry S) (name key : Name) : Change S (Except Error Unit) :=
  match g.aliases.register name key with
  | .ok (aliases, registration) =>
    { registry := { g with aliases }
      answer := .ok ()
      notices := registration.notices key name
      event := registration.event key name }
  | .error e => { registry := g, answer := .error e }

/-- Removes the alias `key`. -/
def removeAlias (g : Registry S) (key : Name) : Change S (Except Error Unit) :=
  match g.aliases.remove key with
  | .ok aliases =>
    { registry := { g with aliases }, answer := .ok (), event := some (.aliasRemoved key) }
  | .error e => { registry := g, answer := .error e }

/-- Resolves all aliases and their targets, or none. -/
def resolveAliases (g : Registry S) (resolver : Name → Option Name) :
    Change S (Except Error Unit) :=
  match g.aliases.resolve resolver with
  | .ok aliases =>
    { registry := { g with aliases }
      answer := .ok ()
      notices := [.aliasesResolved g.aliases.size aliases.size] }
  | .error e => { registry := g, answer := .error e }

/-- Binds a finished object unless another one is bound. The name must not be empty. -/
def register (g : Registry S) (name : Name) (object : S.Object) :
    Change S (Except Error Outcome) :=
  if name = "" then { registry := g, answer := .error (.emptyText "name") }
  else
    match g.object? name with
    | some bound =>
      if bound = object then { registry := g, answer := .ok .alreadyPresent }
      else { registry := g, answer := .error (.alreadyBound name) }
    | none =>
      { registry := g.bind name object
        answer := .ok .registered
        notices := [.registered name]
        event := some (.registered name) }

/-- Installs an early factory, unless a finished object is bound, and forgets any object handed out
before. -/
def provideEarly (g : Registry S) (name : Name) (factory : S.Factory) : Registry S :=
  if g.contains name then g
  else
    { g with
      earlyFactories := g.earlyFactories.insert name factory
      earlyReferences := g.earlyReferences.erase name
      known := g.known.add name }

/-- Drops a name from the caches, which is reported if it was bound or known. -/
def remove (g : Registry S) (name : Name) : Change S Unit where
  registry := g.purge name
  answer := ()
  event := if g.contains name || name ∈ g.known then some (.removed name) else none

/-- Keeps an error for the outermost creation; without one it is forgotten. -/
def suppress (g : Registry S) (error : Error) : Registry S :=
  { g with suppressed := g.suppressed.map (· ++ [error]) }

/-- Has the creation of a name marked, or not. -/
def track (g : Registry S) (name : Name) (tracked : Bool) : Registry S :=
  { g with excluded := if tracked then g.excluded.erase name else g.excluded.add name }

/-- Records that `dependent` depends on what `dependency` stands for. -/
def depend (g : Registry S) (dependent dependency : Name) : Change S Unit :=
  let canonical := g.canonical dependency
  { registry := { g with relations := g.relations.depend dependent canonical }
    answer := ()
    notices := [.dependency dependent canonical] }

/-- Records that `outer` contains `inner`. A pair that is new makes `outer` depend on `inner`. -/
def contain (g : Registry S) (outer inner : Name) : Change S Unit :=
  if g.relations.contents.linked outer inner then { registry := g, answer := () }
  else { g with relations := g.relations.contain outer inner }.depend outer inner

/-- Has a disposer run when the name is destroyed; a name with a disposer keeps its place. -/
def onDestroy (g : Registry S) (name : Name) (disposer : S.Disposer) : Registry S :=
  { g with disposers := g.disposers.insert name disposer }

/-- What an operation amounts to. -/
def apply (g : Registry S) : (u : Update S) → Change S u.Answer
  | .registerAlias name key => g.registerAlias name key
  | .removeAlias key => g.removeAlias key
  | .resolveAliases resolver => g.resolveAliases resolver
  | .register name object => g.register name object
  | .provideEarly name factory => { registry := g.provideEarly name factory, answer := () }
  | .remove name => g.remove name
  | .clear => { registry := g.clearCaches, answer := () }
  | .suppress error => { registry := g.suppress error, answer := () }
  | .track name tracked => { registry := g.track name tracked, answer := () }
  | .contain outer inner => g.contain outer inner
  | .depend dependent dependency => g.depend dependent dependency
  | .onDestroy name disposer => { registry := g.onDestroy name disposer, answer := () }
  | .setObserver observer => { registry := { g with observer }, answer := () }

end Registry

end InstanceRegistry
