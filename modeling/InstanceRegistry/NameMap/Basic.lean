/-!
Maps and sets keyed by names, in the order in which the names were first put in. Every table of a
registry is one of them, because the order of names is what its listings show.

* `NameMap`: pairs of a name and a value, no name twice;
* `NameMap.insert` keeps the place of a name that is present and appends any other;
* `NameMap.erase` and `NameMap.filterMap` close the gaps, so the order of the rest stays;
* `NameMap.get?`, `NameMap.names`: the value of a name, and the listing of all names;
* `NameSet`: the maps without values.
-/

namespace InstanceRegistry

/-- What an instance is registered, looked up and destroyed under. -/
abbrev Name := String

/-- A map from names to values in order of first insertion. -/
structure NameMap (α : Type) where
  entries : List (Name × α)
  names_nodup : (entries.map Prod.fst).Nodup
  deriving DecidableEq

namespace NameMap

variable {α β : Type}

/-- The map without names. -/
def empty : NameMap α := ⟨[], List.nodup_nil⟩

instance : EmptyCollection (NameMap α) := ⟨empty⟩

instance : Inhabited (NameMap α) := ⟨empty⟩

/-- The names in order of first insertion. -/
def names (m : NameMap α) : List Name := m.entries.map Prod.fst

/-- The number of names. -/
def size (m : NameMap α) : Nat := m.entries.length

/-- Whether the map has no name. -/
def isEmpty (m : NameMap α) : Bool := m.entries.isEmpty

/-- The value under a name. -/
def get? (m : NameMap α) (name : Name) : Option α :=
  (m.entries.find? fun entry => entry.1 = name).map Prod.snd

instance : Membership Name (NameMap α) := ⟨fun m name => name ∈ m.names⟩

instance (name : Name) (m : NameMap α) : Decidable (name ∈ m) :=
  inferInstanceAs (Decidable (name ∈ m.names))

/-! ### Insertion -/

/-- Puts a value under a name: in the place of the name, or at the end. -/
def put (name : Name) (value : α) : List (Name × α) → List (Name × α)
  | [] => [(name, value)]
  | entry :: rest =>
    if entry.1 = name then (name, value) :: rest else entry :: put name value rest

/-- A present name keeps its place and a new one goes to the end. -/
theorem map_fst_put (name : Name) (value : α) (entries : List (Name × α)) :
    (put name value entries).map Prod.fst =
      if name ∈ entries.map Prod.fst then entries.map Prod.fst
      else entries.map Prod.fst ++ [name] := by
  induction entries with
  | nil => simp [put]
  | cons entry rest ih =>
      by_cases h : entry.1 = name
      · simp [put, h]
      · have h' : ¬ name = entry.1 := fun e => h e.symm
        by_cases hr : name ∈ rest.map Prod.fst
        · simp only [put, if_neg h, List.map_cons, ih, List.mem_cons, h', hr, or_true, if_true]
        · simp only [put, if_neg h, List.map_cons, ih, List.mem_cons, h', hr, or_self, if_false,
            List.cons_append]

/-- Putting keeps names apart. -/
theorem nodup_put {name : Name} {value : α} {entries : List (Name × α)}
    (h : (entries.map Prod.fst).Nodup) : ((put name value entries).map Prod.fst).Nodup := by
  rw [map_fst_put]
  split
  · exact h
  · next hn =>
      rw [List.nodup_append]
      refine ⟨h, by simp, ?_⟩
      intro a ha b hb hab
      rw [List.mem_singleton] at hb
      exact hn (hb ▸ hab ▸ ha)

/-- Binds a name to a value; a name that is present keeps its place. -/
def insert (m : NameMap α) (name : Name) (value : α) : NameMap α :=
  ⟨put name value m.entries, nodup_put m.names_nodup⟩

/-! ### Removal -/

/-- Drops a name; the rest keeps its order. -/
def erase (m : NameMap α) (name : Name) : NameMap α :=
  ⟨m.entries.filter fun entry => entry.1 ≠ name,
    m.names_nodup.sublist (List.filter_sublist.map Prod.fst)⟩

/-- The names of the kept values are among the names of the values. -/
theorem map_fst_filterMap_sublist (f : α → Option β) (entries : List (Name × α)) :
    ((entries.filterMap fun entry => (f entry.2).map (entry.1, ·)).map Prod.fst).Sublist
      (entries.map Prod.fst) := by
  induction entries with
  | nil => exact List.Sublist.refl []
  | cons entry rest ih =>
      rw [List.filterMap_cons]
      cases f entry.2 with
      | none => exact ih.cons entry.1
      | some b => exact ih.cons_cons entry.1

/-- Changes every value, and drops the names whose value turns into nothing. -/
def filterMap (m : NameMap α) (f : α → Option β) : NameMap β :=
  ⟨m.entries.filterMap fun entry => (f entry.2).map (entry.1, ·),
    m.names_nodup.sublist (map_fst_filterMap_sublist f m.entries)⟩

end NameMap

/-- Sets of names in order of first insertion. -/
abbrev NameSet := NameMap Unit

namespace NameSet

/-- Adds a name at the end unless it is present. -/
def add (s : NameSet) (name : Name) : NameSet := NameMap.insert s name ()

end NameSet

end InstanceRegistry
