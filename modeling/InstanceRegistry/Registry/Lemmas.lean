import InstanceRegistry.NameMap.Lemmas
import InstanceRegistry.Registry.Basic

/-!
The finished object of a name after a change of the caches.

* `object?_bind_self`, `object?_bind_of_ne`: after a finished object is bound;
* `object?_purge_self`, `object?_purge_of_ne`: after a name is dropped.
-/

namespace InstanceRegistry.Registry

variable {S : Setup}

theorem object?_bind_self (g : Registry S) (name : Name) (object : S.Object) :
    (g.bind name object).object? name = some object :=
  NameMap.get?_insert_self g.objects name object

theorem object?_bind_of_ne (g : Registry S) {name other : Name} (h : other ≠ name)
    (object : S.Object) : (g.bind name object).object? other = g.object? other :=
  NameMap.get?_insert_of_ne g.objects h object

theorem object?_purge_self (g : Registry S) (name : Name) : (g.purge name).object? name = none :=
  NameMap.get?_erase_self g.objects name

theorem object?_purge_of_ne (g : Registry S) {name other : Name} (h : other ≠ name) :
    (g.purge name).object? other = g.object? other :=
  NameMap.get?_erase_of_ne g.objects h

/-- A name is bound exactly when it has a finished object. -/
theorem contains_iff_isSome {g : Registry S} {name : Name} :
    g.contains name = true ↔ (g.object? name).isSome := by
  rw [contains, decide_eq_true_iff, object?, NameMap.isSome_get?_iff]

end InstanceRegistry.Registry
