import InstanceRegistry.Run.Machine
import InstanceRegistry.Scenario.Meaning

/-!
Sessions: registries at their start, the steps of a caller, and what the session shows.

* `Session`: the registries and the steps;
* `Session.script`, `Session.begin`: the session as a run;
* `Line`, `Session.lines`: what a session shows, which is the journal of its run without what is not
  asked for.
-/

namespace InstanceRegistry.Scenario

/-- A session with registries numbered below `n`. -/
structure Session (n : Nat) where
  /-- Whether each registry allows an alias to change its target. -/
  overriding : Vector Bool n
  /-- The registries as they are used: one for everything, or a table of aliases on its own. -/
  places : List (Place n)
  /-- What the observers of all places do; nothing for none. -/
  mode : Option (Mode n)
  /-- The names whose aspects are shown after every step; nothing for no such states. -/
  watch : Option (List Name)
  /-- Whether log lines are shown. -/
  logs : Bool
  steps : List (Step n)

/-- What a session shows; `ω` is what stands for an object. -/
inductive Line (ω : Type) where
  | record (content : Record ω)
  | log (content : Notice)

/-- The line of a journal entry, if it is shown. -/
def Line.ofEntry? {n : Nat} (logs : Bool) : Entry (surroundings n) → Option (Line (Object .basic))
  | .notice _ content => if logs then some (log content) else none
  | .note content => some (record content)
  | .event .. | .started .. => none

/-- Lines with their objects as they are shown. -/
def Line.numberAll (m : Numbering) : List (Line (Object .basic)) → List (Line Shown)
  | [] => []
  | log content :: rest => log content :: numberAll m rest
  | record content :: rest =>
    let (m, first) := content.number m
    record first :: numberAll m rest

namespace Session

variable {n : Nat}

/-- Writes the visible state of all registries. -/
def writeStates (places : List (Place n)) (watch : List Name) : Play n Unit := do
  let states ← places.mapM fun place => do
    let (owner, g) ← lookAt place
    return Snapshot.take owner g watch
  put (.states states)

/-- The steps of a session, numbered from `i` on. A failure ends none of them. -/
def stepsFrom (session : Session n) (i : Nat) : List (Step n) → Play n Unit
  | [] => return ()
  | step :: rest => do
    let _ ← step.script (Path.top i)
    match session.watch with
    | some watch => writeStates session.places watch
    | none => pure ()
    stepsFrom session (i + 1) rest

/-- Installs the observers. -/
def installObservers (session : Session n) : Play n Unit := do
  for place in session.places do
    perform place.aliases (.setObserver (session.mode.map fun mode => { place, mode }))

/-- The whole session. -/
def script (session : Session n) : Play n Unit := do
  session.installObservers
  session.stepsFrom 0 session.steps

/-- The world before a session. -/
def world (session : Session n) : World (surroundings n) where
  registries := session.overriding.map Registry.withOverriding
  memory := {}

/-- The beginning of a session. -/
def begin (session : Session n) : Config (surroundings n) Unit :=
  Config.start session.script session.world

/-- What a session shows in at most so many steps of its run. -/
def lines (session : Session n) (steps : Nat) : List (Line Shown) :=
  let last := run (performer n) steps session.begin
  Line.numberAll {} (last.world.journal.filterMap (Line.ofEntry? session.logs))

end Session

end InstanceRegistry.Scenario
