import InstanceRegistry.Search
import InstanceRegistry.Text.Quoted

/-!
Aliases: names that stand for other names. An alias stands for one name, which may be an alias in
its turn; a name may have any number of aliases.

* `AliasTable`: the target of every alias, and whether an alias may change its target;
* `AliasTable.canonical`: the name at the end of the targets that follow a name;
* `AliasTable.hasAlias`: whether an alias leads to a name;
* `AliasTable.aliasesOf`: all aliases that lead to a name, in the order of discovery;
* `AliasTable.text`: the text of a table.
-/

namespace InstanceRegistry

/-- The aliases of a registry, each with the name it stands for, in order of registration. -/
structure AliasTable where
  /-- The target of every alias. -/
  targets : NameMap Name := ∅
  /-- Whether an alias may be given another target. -/
  overriding : Bool := true
  deriving DecidableEq

namespace AliasTable

instance : Inhabited AliasTable := ⟨{}⟩

/-- The number of aliases. -/
def size (t : AliasTable) : Nat := t.targets.size

/-- Whether the name is an alias. -/
def isAlias (t : AliasTable) (name : Name) : Bool := name ∈ t.targets

/-! ### Along the targets -/

/-- Follows at most so many targets from a name, as far as they go. -/
def follow (t : AliasTable) : Nat → Name → Name
  | 0, name => name
  | hops + 1, name =>
    match t.targets.get? name with
    | some target => t.follow hops target
    | none => name

/-- The name that a name stands for in the end; itself, if it is no alias. No path without a
repetition has more targets than the table has aliases. -/
def canonical (t : AliasTable) (name : Name) : Name :=
  t.follow t.size name

/-! ### Against the targets -/

/-- The aliases whose target is the name, in the order of the table. -/
def directAliases (t : AliasTable) (name : Name) : List Name :=
  (t.targets.entries.filter fun entry => entry.2 = name).map Prod.fst

/-- Whether the alias leads to the name in one hop or more. -/
def hasAlias (t : AliasTable) (name key : Name) : Bool :=
  Search.reaches t.directAliases key (t.size + 1) [] [name]

/-- All aliases that lead to the name in one hop or more: the direct ones in the order of the
table, then those of the last discovered alias, and so on. -/
def aliasesOf (t : AliasTable) (name : Name) : List Name :=
  Search.collect t.directAliases (t.size + 1) [name] []

/-! ### The text of a table -/

/-- The text of a table, which also says whether an observer is installed. -/
def text (t : AliasTable) (observed : Bool) : String :=
  recordText "AliasRegistry"
    [("alias_map", recordText "RwLock" [("data", mapText t.targets.entries)]),
     ("allow_overriding", toString t.overriding),
     ("tracer", recordText "Tracer" [("installed", toString observed)])]

end AliasTable

end InstanceRegistry
