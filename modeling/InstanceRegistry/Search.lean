import InstanceRegistry.NameMap.Basic

/-!
Searches along the edges of a finite graph of names. `next` gives the names one edge away; a search
keeps the names that are still to be expanded, the next one first.

* `reaches`: whether some path of at least one edge ends in a given name;
* `collect`: the names at the ends of such paths, in the order of discovery.

Both take as their first number a bound on the names they may expand. No name is expanded twice by
`reaches` and none is discovered twice by `collect`, so the number of names in the graph and one
more for the start is enough.
-/

namespace InstanceRegistry.Search

/-- Whether `goal` is one edge away from a name that the search expands. A name in `seen` has been
expanded already and is passed over. -/
def reaches (next : Name → List Name) (goal : Name) : Nat → List Name → List Name → Bool
  | 0, _, _ => false
  | bound + 1, seen, pending =>
    match pending.dropWhile (· ∈ seen) with
    | [] => false
    | name :: rest =>
      goal ∈ next name || reaches next goal bound (name :: seen) (next name ++ rest)

/-- The names in `found`, then those that expanding the pending ones discovers. The last name that
an expansion discovers is expanded first. -/
def collect (next : Name → List Name) : Nat → List Name → List Name → List Name
  | 0, _, found => found
  | _ + 1, [], found => found
  | bound + 1, name :: rest, found =>
    let fresh := (next name).filter (· ∉ found)
    collect next bound (fresh.reverse ++ rest) (found ++ fresh)

end InstanceRegistry.Search
