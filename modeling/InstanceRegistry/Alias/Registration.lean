import InstanceRegistry.Alias.Table
import InstanceRegistry.Error
import InstanceRegistry.Event
import InstanceRegistry.Notice
import InstanceRegistry.Text.Blank

/-!
Registering and removing single aliases.

* `AliasTable.bind`: gives an alias its target unless that closes a circle;
* `AliasTable.register`: the rules for a pair of a name and an alias;
* `Registration`: what came of a registration, with its log lines and its event;
* `AliasTable.remove`: takes an alias away.
-/

namespace InstanceRegistry

/-- What came of the registration of an alias. -/
inductive Registration where
  /-- The alias has that target already. -/
  | known
  /-- The alias was given to itself, which takes it away if it `existed`. -/
  | cleared (existed : Bool)
  /-- The alias is new. -/
  | added
  /-- The alias had the target `previous`. -/
  | retargeted (previous : Name)
  deriving DecidableEq

namespace Registration

/-- The log lines of a registration of `key` for `name`. -/
def notices (key name : Name) : Registration → List Notice
  | known => []
  | cleared _ => [.aliasIgnored key]
  | added => [.aliasRegistered key name]
  | retargeted previous => [.aliasRetargeted key previous name]

/-- The event of a registration of `key` for `name`. -/
def event (key name : Name) : Registration → Option Event
  | known => none
  | cleared existed => if existed then some (.aliasRemoved key) else none
  | added => some (.aliasRegistered key name)
  | retargeted previous => some (.aliasRetargeted key previous name)

end Registration

namespace AliasTable

/-- Gives the alias `key` the target `name`. A name that leads to the alias already is refused,
since the new target would close a circle. -/
def bind (t : AliasTable) (key name : Name) : Except Error AliasTable :=
  if t.hasAlias key name then .error (.circularAlias key name)
  else .ok { t with targets := t.targets.insert key name }

/-- Takes an alias away; the rest keeps its order. -/
def drop (t : AliasTable) (key : Name) : AliasTable :=
  { t with targets := t.targets.erase key }

/-- Registers the alias `key` for `name`. Neither may be blank. An alias for itself is taken away,
a pair that is known stays as it is, and another target needs the permission to override. -/
def register (t : AliasTable) (name key : Name) : Except Error (AliasTable × Registration) :=
  if isBlank name then .error (.emptyText "name")
  else if isBlank key then .error (.emptyText "alias")
  else if key = name then .ok (t.drop key, .cleared (t.isAlias key))
  else
    match t.targets.get? key with
    | none => (t.bind key name).map (·, .added)
    | some previous =>
      if previous = name then .ok (t, .known)
      else if t.overriding then (t.bind key name).map (·, .retargeted previous)
      else .error (.aliasConflict key name previous)

/-- Takes a registered alias away. -/
def remove (t : AliasTable) (key : Name) : Except Error AliasTable :=
  if t.isAlias key then .ok (t.drop key) else .error (.unknownAlias key)

end AliasTable

end InstanceRegistry
