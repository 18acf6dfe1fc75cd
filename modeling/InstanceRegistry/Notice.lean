import InstanceRegistry.Text.Quoted
import InstanceRegistry.NameMap.Basic

/-!
The lines that a registry writes to its log.

* `Summary`: what the text of a whole registry shows;
* `Notice`: one constructor per occasion for a line;
* `Notice.level`, `Notice.message`, `Notice.fields`: the parts of the line.
-/

namespace InstanceRegistry

/-! ### The text of a registry -/

/-- The known names of a registry, the number of names that are being created, and the number of
its aliases. -/
structure Summary where
  names : List Name
  inCreation : Nat
  aliases : Nat
  deriving DecidableEq

/-- The text of a registry. -/
def Summary.text (s : Summary) : String :=
  recordText "SingletonRegistry"
    [("singletons", listText s.names), ("in_creation", toString s.inCreation),
     ("aliases", toString s.aliases)]

/-! ### Log lines -/

/-- How much a log line matters. -/
inductive Level where
  | trace | debug | info | error
  deriving DecidableEq

/-- The word for a level. -/
def Level.text : Level → String
  | trace => "TRACE"
  | debug => "DEBUG"
  | info => "INFO"
  | error => "ERROR"

/-- An occasion for a log line. -/
inductive Notice where
  /-- A name was given as its own alias. -/
  | aliasIgnored (key : Name)
  /-- An alias changes its target. -/
  | aliasRetargeted (key previous name : Name)
  /-- An alias is new. -/
  | aliasRegistered (key name : Name)
  /-- All aliases were resolved; the numbers count them before and after. -/
  | aliasesResolved (before after : Nat)
  /-- The creation of an object begins. -/
  | creating (name : Name)
  /-- An object under construction is handed out. -/
  | exposing (name : Name)
  /-- The object of a failing factory was bound meanwhile. -/
  | appeared (name : Name) (reason : String)
  /-- A creation ended for a name without a mark. -/
  | unmarked (name : Name)
  /-- A finished object was bound. -/
  | registered (name : Name)
  /-- A dependency was recorded, or was known. -/
  | dependency (dependent dependency : Name)
  /-- The dependents of a name are destroyed before the name. -/
  | dependentsFirst (name : Name) (dependents : List Name)
  /-- A disposer failed. -/
  | disposerFailed (name : Name) (reason : String)
  /-- The destruction of all objects begins. -/
  | destroyingAll (registry : Summary)
  deriving DecidableEq

namespace Notice

/-- The level of a line. -/
def level : Notice → Level
  | aliasRetargeted .. => .info
  | exposing _ => .trace
  | unmarked _ | disposerFailed .. => .error
  | _ => .debug

/-- The text of a line. -/
def message : Notice → String
  | aliasIgnored _ => "alias definition ignored since it points to same name"
  | aliasRetargeted .. => "overriding alias definition"
  | aliasRegistered .. => "alias definition registered"
  | aliasesResolved .. => "resolved aliases"
  | creating _ => "creating shared instance of singleton"
  | exposing _ => "exposing early reference to singleton"
  | appeared .. => "singleton appeared while its factory failed, using it"
  | unmarked _ => "singleton finished creation without being marked as in creation"
  | registered _ => "registered singleton"
  | dependency .. => "registered dependency"
  | dependentsFirst .. => "destroying dependent singletons first"
  | disposerFailed .. => "destroy callback failed"
  | destroyingAll _ => "destroying singletons"

/-- The fields of a line after its text, in order. A field's name may come twice. -/
def details : Notice → List (String × String)
  | aliasIgnored key => [("alias", key)]
  | aliasRetargeted key previous name => [("alias", key), ("previous", previous), ("name", name)]
  | aliasRegistered key name => [("alias", key), ("name", name)]
  | aliasesResolved before after => [("before", toString before), ("after", toString after)]
  | creating name | exposing name | unmarked name | registered name => [("name", name)]
  | appeared name reason => [("name", name), ("message", reason)]
  | dependency dependent target => [("dependent", dependent), ("dependency", target)]
  | dependentsFirst name dependents => [("name", name), ("dependents", setText dependents)]
  | disposerFailed name reason => [("name", name), ("error", reason)]
  | destroyingAll registry => [("registry", registry.text)]

/-- The fields of a line, its text first. -/
def fields (n : Notice) : List (String × String) :=
  ("message", n.message) :: n.details

end Notice

end InstanceRegistry
