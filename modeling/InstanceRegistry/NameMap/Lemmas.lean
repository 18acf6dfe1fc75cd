import InstanceRegistry.NameMap.Basic

/-!
What the operations on maps of names do to lookups and listings.

* `get?_insert_self`, `get?_insert_of_ne`, `get?_erase_self`, `get?_erase_of_ne`: a lookup after an
  insertion or a removal, and `get?_insert`, `get?_erase` for both cases at once;
* `names_insert`, `names_erase`, `mem_insert`, `mem_erase`: the listing after them;
* `erase_of_not_mem`, `erase_of_get?_eq_none`, `erase_insert`, `erase_erase`: a name that is
  dropped;
* `eq_empty_of_forall_not_mem`: a map without any name;
* `isSome_get?_iff`: the listed names are those with a value;
* `get?_eq_some_iff`: the value of a name is the value of its entry;
* `get?_filterMap`: a lookup after every value is changed.
-/

namespace InstanceRegistry

namespace NameMap

variable {α : Type}

/-! ### Lookups and listings after an operation -/

@[simp] theorem names_empty : (∅ : NameMap α).names = [] := rfl

@[simp] theorem get?_empty (name : Name) : (∅ : NameMap α).get? name = none := rfl

theorem mem_def {m : NameMap α} {name : Name} : name ∈ m ↔ name ∈ m.names := Iff.rfl

/-- No name is listed twice. -/
theorem nodup_names (m : NameMap α) : m.names.Nodup := m.names_nodup

@[simp] theorem length_names (m : NameMap α) : m.names.length = m.size := by
  simp [names, size]

/-- A name is listed exactly when it has a value. -/
theorem isSome_get?_iff {m : NameMap α} {name : Name} : (m.get? name).isSome ↔ name ∈ m := by
  rw [get?, Option.isSome_map, List.find?_isSome]
  simp [mem_def, names]

/-- The listing after an insertion. -/
theorem names_insert (m : NameMap α) (name : Name) (value : α) :
    (m.insert name value).names = if name ∈ m then m.names else m.names ++ [name] :=
  map_fst_put name value m.entries

/-- The listing after a removal. -/
theorem names_erase (m : NameMap α) (name : Name) :
    (m.erase name).names = m.names.filter (· ≠ name) := by
  simp only [names, erase, List.filter_map]
  rfl

theorem get?_insert_self (m : NameMap α) (name : Name) (value : α) :
    (m.insert name value).get? name = some value := by
  simp only [get?, insert]
  induction m.entries with
  | nil => simp [put]
  | cons entry rest ih =>
      by_cases h : entry.1 = name
      · simp [put, h]
      · simpa [put, h] using ih

theorem get?_insert_of_ne (m : NameMap α) {name other : Name} (h : other ≠ name) (value : α) :
    (m.insert name value).get? other = m.get? other := by
  simp only [get?, insert]
  induction m.entries with
  | nil => simp [put, h.symm]
  | cons entry rest ih =>
      by_cases he : entry.1 = name
      · simp [put, he, h.symm]
      · by_cases ho : entry.1 = other
        · simp [put, ho, h]
        · simpa [put, he, ho] using ih

theorem get?_erase_self (m : NameMap α) (name : Name) : (m.erase name).get? name = none := by
  simp only [get?, erase, Option.map_eq_none_iff, List.find?_eq_none]
  intro entry hentry
  simpa using (List.mem_filter.mp hentry).2

theorem get?_erase_of_ne (m : NameMap α) {name other : Name} (h : other ≠ name) :
    (m.erase name).get? other = m.get? other := by
  simp only [get?, erase]
  induction m.entries with
  | nil => rfl
  | cons entry rest ih =>
      by_cases he : entry.1 = name
      · have ho : ¬ entry.1 = other := fun e => h (e.symm.trans he)
        simpa [he, List.find?_cons, h.symm] using ih
      · by_cases ho : entry.1 = other
        · simp [ho, h]
        · simpa [List.find?_cons, he, ho] using ih

theorem get?_insert (m : NameMap α) (name other : Name) (value : α) :
    (m.insert name value).get? other = if other = name then some value else m.get? other := by
  by_cases h : other = name
  · rw [if_pos h, h, get?_insert_self]
  · rw [if_neg h, get?_insert_of_ne m h]

theorem get?_erase (m : NameMap α) (name other : Name) :
    (m.erase name).get? other = if other = name then none else m.get? other := by
  by_cases h : other = name
  · rw [if_pos h, h, get?_erase_self]
  · rw [if_neg h, get?_erase_of_ne m h]

theorem mem_insert {m : NameMap α} {name other : Name} {value : α} :
    other ∈ m.insert name value ↔ other = name ∨ other ∈ m := by
  rw [mem_def, names_insert]
  split
  · next h =>
      refine ⟨Or.inr, ?_⟩
      rintro (rfl | ho)
      · exact h
      · exact ho
  · rw [List.mem_append, List.mem_singleton, or_comm]
    rfl

theorem mem_erase {m : NameMap α} {name other : Name} :
    other ∈ m.erase name ↔ other ≠ name ∧ other ∈ m := by
  rw [mem_def, names_erase, List.mem_filter, decide_eq_true_iff, and_comm]
  rfl

/-- Without a name there is nothing to drop. -/
theorem erase_of_not_mem {m : NameMap α} {name : Name} (h : name ∉ m) : m.erase name = m := by
  have hentries : m.entries.filter (fun entry => entry.1 ≠ name) = m.entries := by
    refine List.filter_eq_self.mpr fun entry hentry => decide_eq_true ?_
    rintro rfl
    exact h (List.mem_map_of_mem hentry)
  obtain ⟨entries, hnodup⟩ := m
  exact NameMap.mk.injEq .. |>.mpr hentries

theorem erase_of_get?_eq_none {m : NameMap α} {name : Name} (h : m.get? name = none) :
    m.erase name = m := by
  refine erase_of_not_mem fun hmem => ?_
  rw [← isSome_get?_iff, h] at hmem
  cases hmem

/-- A name that is put in and dropped is as good as dropped. -/
theorem erase_insert (m : NameMap α) (name : Name) (value : α) :
    (m.insert name value).erase name = m.erase name := by
  have hput : ∀ entries : List (Name × α),
      (put name value entries).filter (fun entry => entry.1 ≠ name) =
        entries.filter fun entry => entry.1 ≠ name := by
    intro entries
    induction entries with
    | nil => simp [put]
    | cons entry rest ih =>
        by_cases hname : entry.1 = name
        · simp [put, hname]
        · simpa [put, hname] using ih
  exact NameMap.mk.injEq .. |>.mpr (hput m.entries)

/-- A name is dropped once. -/
theorem erase_erase (m : NameMap α) (name : Name) : (m.erase name).erase name = m.erase name :=
  erase_of_not_mem fun h => (mem_erase.mp h).1 rfl

/-- The empty map is the one that lists no name. -/
theorem eq_empty_of_forall_not_mem {m : NameMap α} (h : ∀ name, name ∉ m) : m = ∅ := by
  have hentries : m.entries = [] :=
    List.eq_nil_iff_forall_not_mem.mpr fun entry hentry => h entry.1 (List.mem_map_of_mem hentry)
  obtain ⟨entries, hnodup⟩ := m
  exact NameMap.mk.injEq .. |>.mpr hentries

/-! ### Lookups and entries -/

/-- A name that occurs once among some entries has the value of its entry. -/
theorem find?_eq_some_of_mem {entries : List (Name × α)} (h : (entries.map Prod.fst).Nodup)
    {entry : Name × α} (hentry : entry ∈ entries) :
    entries.find? (fun other => other.1 = entry.1) = some entry := by
  induction entries with
  | nil => cases hentry
  | cons first rest ih =>
      rw [List.map_cons, List.nodup_cons] at h
      by_cases he : first.1 = entry.1
      · rcases List.mem_cons.mp hentry with rfl | hr
        · simp
        · exact absurd (he ▸ List.mem_map_of_mem hr) h.1
      · rcases List.mem_cons.mp hentry with rfl | hr
        · exact absurd rfl he
        · rw [List.find?_cons_of_neg (by simpa using he), ih h.2 hr]

/-- The value of a name is the value of its entry. -/
theorem get?_eq_some_iff {m : NameMap α} {name : Name} {value : α} :
    m.get? name = some value ↔ (name, value) ∈ m.entries := by
  constructor
  · intro h
    obtain ⟨entry, hfind, rfl⟩ := Option.map_eq_some_iff.mp h
    have hname : entry.1 = name := by simpa using List.find?_some hfind
    exact hname ▸ List.mem_of_find?_eq_some hfind
  · intro h
    rw [get?, find?_eq_some_of_mem m.names_nodup h]
    rfl

/-- A lookup after every value is changed. -/
theorem get?_filterMap {β : Type} (m : NameMap α) (f : α → Option β) (name : Name) :
    (m.filterMap f).get? name = (m.get? name).bind f := by
  apply Option.ext
  intro b
  rw [get?_eq_some_iff, Option.bind_eq_some_iff]
  simp only [filterMap, List.mem_filterMap, Option.map_eq_some_iff, Prod.mk.injEq,
    get?_eq_some_iff]
  constructor
  · rintro ⟨⟨other, a⟩, hentry, _, hf, rfl, rfl⟩
    exact ⟨a, hentry, hf⟩
  · rintro ⟨a, hentry, hf⟩
    exact ⟨(name, a), hentry, b, hf, rfl, rfl⟩

end NameMap

namespace NameSet

/-- The listing after an addition. -/
theorem names_add (s : NameSet) (name : Name) :
    (s.add name).names = if name ∈ s then s.names else s.names ++ [name] :=
  NameMap.names_insert s name ()

theorem mem_add {s : NameSet} {name other : Name} :
    other ∈ s.add name ↔ other = name ∨ other ∈ s :=
  NameMap.mem_insert

end NameSet

end InstanceRegistry
