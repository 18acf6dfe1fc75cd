import InstanceRegistry.Scenario.Surroundings

/-!
What the steps of a session do: each is a script, and so is each program that a step supplies.

* `Question.answer`: the answers to questions;
* `Play`: the scripts of a session;
* `Step.script`, `Action.script`, `stepsScript`: the scripts of steps;
* `Supplied.script`, `Disposal.script`, `Watcher.script`, `performer`: the scripts of programs.
-/

namespace InstanceRegistry.Scenario

/-! ### Questions -/

/-- The answer to a question about a registry and the registry whose aliases count. -/
def Question.answer {S : Setup} (owner g : Registry S) : Question → Answer (Object .basic)
  | hasAlias name key => .flag (owner.aliases.hasAlias name key)
  | isAlias name => .flag (owner.aliases.isAlias name)
  | aliasesOf name => .names (owner.aliases.aliasesOf name)
  | canonical name => .text (owner.canonical name)
  | aliasCount => .count owner.aliases.size
  | overriding => .flag owner.aliases.overriding
  | aliasText => .text owner.aliasText
  | contains name => .flag (g.contains name)
  | containsCanonical name => .flag (g.containsCanonical name)
  | names => .names g.knownNames
  | count => .count g.count
  | isInCreation name => .flag (g.isInCreation name)
  | isMarked name => .flag (g.isMarked name)
  | text => .text g.text
  | isDependent name dependent => .flag (g.isDependent name dependent)
  | hasDependents name => .flag (g.hasDependents name)
  | dependentsOf name => .names (g.dependentsOf name)
  | dependenciesOf name => .names (g.dependenciesOf name)
  | containedIn name => .names (g.containedIn name)
  | disposerNames => .names g.disposerNames
  | state watch => .state (Snapshot.take owner g watch)

/-! ### Steps -/

section Steps

variable {n : Nat}

open Script

/-- The scripts of a session. -/
abbrev Play (n : Nat) (α : Type) : Type := Script (surroundings n) α

/-- Writes a record. -/
def put (record : Record (Object .basic)) : Play n Unit := write (S := surroundings n) record

/-- The memory of the session. -/
def recollect : Play n Memory := memory (S := surroundings n)

/-- Calls an operation that runs no code of the session. -/
def perform (r : Fin n) (u : Update (surroundings n)) : Play n u.Answer :=
  update (S := surroundings n) r u

/-- Two registries as they stand: the one whose aliases count, and the one of the objects. -/
def lookAt (place : Place n) : Play n (Registry (surroundings n) × Registry (surroundings n)) := do
  let owner ← registry (S := surroundings n) place.aliases
  let g ← registry (S := surroundings n) place.objects
  return (owner, g)

/-- The object that a variable holds. -/
def valueOf (x : Variable) : Play n (Option (Object .basic)) := do
  return (← recollect).holdings.get? x

/-- Whether there is a variable and it holds an object. -/
def holds : Option Variable → Play n Bool
  | some x => return (← valueOf x).isSome
  | none => return false

/-- Has the variable, if there is one, hold the object or nothing. -/
def assign : Option Variable → Option (Object .basic) → Play n Unit
  | some x, o => modify (S := surroundings n) fun m => m.assign x o
  | none, _ => return ()

/-- The object of a source. -/
def Source.script : Source → Play n (Except Error (Object .basic))
  | fresh value => return .ok (← newObject value)
  | held x => do
    match ← valueOf x with
    | some o => return .ok o
    | none => return .error (.illegalState ("unbound " ++ x))

/-- A new counter of runs. -/
def newCounter : Play n Nat := do
  let counter := (← recollect).runs.length
  modify (S := surroundings n) Memory.addCounter
  return counter

/-- A factory with a new counter of runs. -/
def supply (path : Path) (program : Factory n) (byValue : Bool) : Play n (Supplied n) := do
  return { path, program, counter := ← newCounter, byValue }

/-- Asks for the object of a name again and again: the failures, the objects. -/
def obtainTimes (r : Fin n) (name : Name) (factory : Supplied n) :
    Nat → Play n (List Error × List (Object .basic))
  | 0 => return ([], [])
  | times + 1 => do
    let answer ← obtain r name factory
    let (failures, objects) ← obtainTimes r name factory times
    match answer with
    | .ok o => return (failures, o :: objects)
    | .error e => return (e :: failures, objects)

/-- Texts in the order of their characters. -/
def inOrder (texts : List String) : List String :=
  texts.mergeSort fun a b => a ≤ b

/-- The object of an answer, for a variable to hold. -/
def heldBy : Except Error (Answer (Object .basic)) → Option (Object .basic)
  | .ok (.object o) => some o
  | _ => none

/-- An object or nothing, as an answer. -/
def Answer.ofObject? : Option (Object .basic) → Answer (Object .basic)
  | some o => .object o
  | none => .nothing

/-- Goes on with the answer of an operation that cannot fail and says nothing. -/
def quietly (operation : Play n Unit) : Play n (Except Error (Answer (Object .basic))) := do
  operation
  return .ok .nothing

/-- Goes on with the answer of an operation that may fail. -/
def answering {α : Type} (f : α → Answer (Object .basic)) (operation : Play n (Except Error α)) :
    Play n (Except Error (Answer (Object .basic))) :=
  return (← operation).map f

mutual

/-- A step: what it does, then its variable, then its record. A failure is the result if it ends the
program. -/
def Step.script (path : Path) : Step n → Play n (Except Error Unit)
  | .mk manner action => do
    if ← holds manner.skipIfBound then
      put (.skipped path)
      return .ok ()
    else
      let answer ← Action.script path manner.place action
      assign manner.assign (heldBy answer)
      match answer with
      | .ok content =>
        put (.succeeded path content)
        return .ok ()
      | .error e =>
        put (.failed path e)
        if manner.suppress then
          perform manner.place.objects (.suppress e)
          return .ok ()
        else if manner.stopOnFailure then return .error e
        else return .ok ()

/-- What a step does, up to its answer. -/
def Action.script (path : Path) (place : Place n) :
    Action n → Play n (Except Error (Answer (Object .basic)))
  | .make source => answering .object source.script
  | .ask question => do
    let (owner, g) ← lookAt place
    return .ok (question.answer owner g)
  | .setObserver mode =>
    quietly (perform place.aliases (.setObserver (mode.map fun mode => { place, mode })))
  | .registerAlias name key =>
    answering (fun _ => .nothing) (perform place.aliases (.registerAlias name key))
  | .removeAlias key => answering (fun _ => .nothing) (perform place.aliases (.removeAlias key))
  | .resolveAliases resolver noted => do
    if noted then
      let (owner, _) ← lookAt place
      for text in owner.aliases.consulted resolver.apply do
        put (.resolved text (resolver.apply text))
    answering (fun _ => .nothing) (perform place.aliases (.resolveAliases resolver.apply))
  | .lookup name early => answering Answer.ofObject? (lookup place.objects name early)
  | .obtain name factory => do
    let supplied ← supply path factory false
    answering .object (obtain place.objects name supplied)
  | .obtainTogether name callers factory => do
    let supplied ← supply path factory false
    let (failures, objects) ← obtainTimes place.objects name supplied callers
    let runs := (← recollect).earlierRuns supplied.counter
    return .ok (.tally (inOrder (failures.map Error.message)) objects runs)
  | .suppress error => quietly (perform place.objects (.suppress error))
  | .register name source => do
    match ← source.script with
    | .ok o => answering .outcome (perform place.objects (.register name o))
    | .error e => return .error e
  | .provideEarly name factory => do
    let supplied ← supply path factory false
    quietly (perform place.objects (.provideEarly name supplied))
  | .remove name => quietly (perform place.objects (.remove name))
  | .clear => quietly (perform place.objects .clear)
  | .exclusively steps => answering (fun _ => .nothing) (stepsScript path 0 steps)
  | .track name tracked => quietly (perform place.objects (.track name tracked))
  | .contain outer inner => quietly (perform place.objects (.contain outer inner))
  | .depend dependent dependency =>
    quietly (perform place.objects (.depend dependent dependency))
  | .onDestroy name program => do
    let disposal : Disposal n := { path, program, counter := ← newCounter }
    quietly (perform place.objects (.onDestroy name disposal))
  | .destroy name => quietly (destroy place.objects name)
  | .destroyAll => quietly (destroyAll place.objects)
  | .registerValue name value => answering .outcome (registerValue place.objects name value)
  | .get name kind => answering .object (get place.objects name kind)
  | .getValue name kind => answering .value (getValue place.objects name kind)
  | .obtainOf name kind factory => do
    let supplied ← supply path factory true
    answering .object (obtainOf place.objects name kind supplied)
  | .obtainProduct name kind description shared program => do
    let factory ← supply path program true
    let product : Product (surroundings n) := { kind, description, shared, factory }
    answering .object (obtainProduct place.objects name product)

/-- Steps one after another, numbered from `i` on, up to the first failure that ends them. -/
def stepsScript (path : Path) (i : Nat) : List (Step n) → Play n (Except Error Unit)
  | [] => return .ok ()
  | step :: rest => do
    match ← Step.script (path.child i) step with
    | .ok () => stepsScript path (i + 1) rest
    | .error e => return .error e

end

/-! ### Programs -/

/-- Notes the start of a program and counts it; the number of its earlier runs. -/
def startRun (path : Path) (counter : Nat) : Play n Nat := do
  let earlier := (← recollect).earlierRuns counter
  modify (S := surroundings n) fun m => m.countRun counter
  put (.started path earlier)
  return earlier

/-- What a factory ends with, as a script. -/
def Return.script : Return → Play n (Except Error (Object .basic))
  | object source => source.script
  | failure error => return .error error

/-- A run of a factory. -/
def Factory.script (path : Path) (counter : Nat) : Factory n → Play n (Except Error (Object .basic))
  | .mk steps first later => do
    let earlier ← startRun path counter
    match ← stepsScript path 0 steps with
    | .ok () => (returnOf first later earlier).script
    | .error e => return .error e

/-- A run of a factory as it was supplied. -/
def Supplied.script (factory : Supplied n) : Play n (Except Error (Object .basic)) :=
  let made : Play n (Except Error (Object .basic)) :=
    factory.program.script factory.path factory.counter
  if factory.byValue then wrap do return (← made).map Object.value else made

/-- A run of a disposer as it was supplied. -/
def Disposal.script (disposer : Disposal n) : Play n (Except Error Unit) :=
  match disposer.program with
  | .mk steps failure => do
    let _ ← startRun disposer.path disposer.counter
    match ← stepsScript disposer.path 0 steps, failure with
    | .error e, _ => return .error e
    | .ok (), some text => return .error (.caller text [])
    | .ok (), none => return .ok ()

/-- What an observer does with an event. -/
def Watcher.script (watcher : Watcher n) (event : Event) : Play n Unit := do
  let own := watcher.place.aliases
  match watcher.mode with
  | .plain => put (.event own event .none)
  | .snapshot watch =>
    let (owner, g) ← lookAt watcher.place
    put (.event own event (.state (Snapshot.take owner g watch)))
  | .once =>
    perform own (.setObserver none)
    put (.event own event .none)
  | .forward target =>
    let answer ← registerValue target event.message (.text event.message)
    put (.event own event (.forwarded answer))

/-- The programs of a session, by what registries keep of them. -/
def performer (n : Nat) : Caller (surroundings n) where
  factory := Supplied.script
  disposer := Disposal.script
  observer := Watcher.script

end Steps

end InstanceRegistry.Scenario
