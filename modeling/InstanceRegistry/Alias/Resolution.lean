import InstanceRegistry.Alias.Registration

/-!
Resolving all aliases and targets of a table at once, for instance when they hold placeholders.

* `AliasTable.resolveEntry`: the rule for one alias and its target;
* `AliasTable.resolve`: the rule applied to the aliases of the table in order, to all or to none;
* `AliasTable.consulted`: the texts that the resolver is asked about on the way.
-/

namespace InstanceRegistry.AliasTable

/-- What a text resolves to. An empty answer counts as none. -/
def resolved (resolver : Name → Option Name) (text : Name) : Option Name :=
  (resolver text).filter (· ≠ "")

/-- Resolves the alias `key` with the target `target` in a table whose earlier aliases are resolved.
The alias goes when one of the two resolves to nothing or both to the same. An alias that changes
joins an equal pair, conflicts with another target, and else moves to the end; a target that changes
under the same alias is put in its place. -/
def resolveEntry (resolver : Name → Option Name) (t : AliasTable) (key target : Name) :
    Except Error AliasTable :=
  match resolved resolver key, resolved resolver target with
  | some newKey, some newTarget =>
    if newKey = newTarget then .ok (t.drop key)
    else if newKey ≠ key then
      match t.targets.get? newKey with
      | some existing =>
        if existing = newTarget then .ok (t.drop key)
        else .error (.aliasConflict newKey newTarget existing)
      | none =>
        if t.hasAlias newKey newTarget then .error (.circularAlias newKey newTarget)
        else .ok { t with targets := (t.targets.erase key).insert newKey newTarget }
    else if target ≠ newTarget then t.bind key newTarget
    else .ok t
  | _, _ => .ok (t.drop key)

/-- Resolves every alias of the table in order. The first failure is the answer, and then nothing
has changed. -/
def resolve (t : AliasTable) (resolver : Name → Option Name) : Except Error AliasTable :=
  t.targets.entries.foldlM (fun working entry => working.resolveEntry resolver entry.1 entry.2) t

/-- The texts that the resolver is asked about for these entries: each alias, then its target, up to
the first failure. -/
def consultedFor (resolver : Name → Option Name) (working : AliasTable) :
    List (Name × Name) → List Name
  | [] => []
  | (key, target) :: rest =>
    key :: target ::
      match working.resolveEntry resolver key target with
      | .ok t => consultedFor resolver t rest
      | .error _ => []

/-- The texts that the resolver is asked about when the table is resolved. -/
def consulted (t : AliasTable) (resolver : Name → Option Name) : List Name :=
  consultedFor resolver t t.targets.entries

end InstanceRegistry.AliasTable
