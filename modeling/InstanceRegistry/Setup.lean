import InstanceRegistry.Object

/-!
What the users of registries bring to a run: how many registries there are, the values of the
objects, and the types of what only the users know.
-/

namespace InstanceRegistry

/-- The surroundings of a run. -/
structure Setup extends Values where
  /-- The number of registries. -/
  registries : Nat
  /-- The identifiers of factories. -/
  Factory : Type
  /-- The identifiers of disposers. -/
  Disposer : Type
  /-- The identifiers of observers. -/
  Observer : Type
  /-- The state that the callers keep for themselves. -/
  Memory : Type
  /-- What the callers write into the journal of a run. -/
  Note : Type

/-- The number of a registry. -/
abbrev Setup.Index (S : Setup) : Type := Fin S.registries

/-- The objects that registries share. -/
abbrev Setup.Object (S : Setup) : Type := InstanceRegistry.Object S.toValues

end InstanceRegistry
