import InstanceRegistry.Text.Quoted
import InstanceRegistry.NameMap.Basic

/-!
The events that a registry reports to its observer.

* `Event`: one constructor per change that an observer is told of;
* `Event.message`: the text of an event, a word for the change and its fields in braces.
-/

namespace InstanceRegistry

/-- A change in a registry, as its observer is told of it. -/
inductive Event where
  /-- The alias is new and stands for the name. -/
  | aliasRegistered (key name : Name)
  /-- The alias stood for `previous` and now stands for the name. -/
  | aliasRetargeted (key previous name : Name)
  /-- The alias is gone. -/
  | aliasRemoved (key : Name)
  /-- A finished object was bound to the name. -/
  | registered (name : Name)
  /-- A factory produced the object that is now bound to the name. -/
  | created (name : Name)
  /-- An object under construction was handed out under the name. -/
  | earlyReference (name : Name)
  /-- The name was dropped from the caches. -/
  | removed (name : Name)
  /-- The name was destroyed. -/
  | destroyed (name : Name)
  /-- The disposer of the name failed. -/
  | destroyFailed (name : Name) (reason : String)
  /-- The destruction of all objects begins. -/
  | destroyAll
  deriving DecidableEq

namespace Event

/-- The text of an event. -/
def message : Event → String
  | aliasRegistered key name => recordText "alias" [("alias", key), ("name", name)]
  | aliasRetargeted key previous name =>
    recordText "alias overridden" [("alias", key), ("previous", previous), ("name", name)]
  | aliasRemoved key => recordText "alias removed" [("alias", key)]
  | registered name => recordText "register" [("name", name)]
  | created name => recordText "created" [("name", name)]
  | earlyReference name => recordText "early reference" [("name", name)]
  | removed name => recordText "removed" [("name", name)]
  | destroyed name => recordText "destroyed" [("name", name)]
  | destroyFailed name reason => recordText "destroy failed" [("name", name), ("reason", reason)]
  | destroyAll => "Destroying the Registry"

end Event

end InstanceRegistry
