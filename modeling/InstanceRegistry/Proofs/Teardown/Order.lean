import InstanceRegistry.Proofs.Teardown.Closure

/-!
In which order a destruction runs the disposers. What depends on a name or contains it is to go
before the name. A destruction keeps to that, unless the dependents of some name draw in another
one that is to go after the name: that one is then destroyed while the disposer of the name still
waits.

* `Registry.Precedes`: which names are to go before which;
* `Registry.DrawsIn`, `Registry.Untangled`: the names that are destroyed while a disposer waits, and
  the registries where none of them is to go after it;
* `WaitsAt`, `Waits`: the disposer of a name waits among the tasks;
* `Orderly`: what the tasks of a destruction keep;
* `Clears.pairwise_not_precedes`: the order of the disposers;
* `Clears.exists_disposal_before`: the order when names are tangled.
-/

namespace InstanceRegistry

variable {S : Setup}

open Relation (ReflTransGen TransGen)

namespace Registry

/-- The name `x` depends on `y` or contains it, and is to go before it. -/
def Precedes (g : Registry S) (x y : Name) : Prop := x ∈ g.dependentsOf y ∨ y ∈ g.containedIn x

/-- The dependents of `y` take `u` along, so that `u` is destroyed while `y` waits for them. -/
def DrawsIn (g : Registry S) (y u : Name) : Prop :=
  ∃ x ∈ g.dependentsOf y, ReflTransGen g.TakesAlong x u

/-- No name draws in another one that is to go after it. -/
def Untangled (g : Registry S) : Prop := ∀ y u, g.Precedes y u → ¬ g.DrawsIn y u

end Registry

/-! ### Waiting disposers -/

/-- The name `n` is opened, and `pre` are the tasks that are to be done before its own disposer, if
that has not run already, and its contents. -/
structure WaitsAt (g : Registry S) (p : Progress) (n : Name) (pre own post : List (Task S)) :
    Prop where
  own : own = [] ∨ ∃ d, own = [.dispose n d]
  drawn : ∀ task ∈ pre, ∀ m, task.subject = some m → g.DrawsIn n m
  single : ∀ task ∈ pre ++ post, task.disposed ≠ some n
  dependent : ∀ x ∈ g.dependentsOf n, x ∈ p.opened ∨ .destroy x ∈ pre

/-- The disposer and the contents of the name wait among the tasks. -/
def Waits (g : Registry S) (p : Progress) (tasks : List (Task S)) (n : Name) : Prop :=
  ∃ pre own post, WaitsAt g p n pre own post ∧ tasks = pre ++ own ++ .destroyContents n :: post

section Waits

variable {g : Registry S} {p : Progress} {task : Task S} {rest : List (Task S)} {n : Name}

/-- The next task is one of those before the disposer, or the disposer, or the contents. -/
lemma Waits.head (h : Waits g p (task :: rest) n) :
    (∃ pre own post, WaitsAt g p n (task :: pre) own post ∧
      rest = pre ++ own ++ .destroyContents n :: post) ∨
    (∃ d post, WaitsAt g p n [] [.dispose n d] post ∧ task = .dispose n d ∧
      rest = .destroyContents n :: post) ∨
    (∃ post, WaitsAt g p n [] [] post ∧ task = .destroyContents n ∧ rest = post) := by
  obtain ⟨pre, own, post, hw, htasks⟩ := h
  cases pre with
  | cons first pre =>
      simp only [List.cons_append, List.cons.injEq] at htasks
      obtain ⟨rfl, hrest⟩ := htasks
      exact Or.inl ⟨pre, own, post, hw, hrest⟩
  | nil =>
      rcases hw.own with rfl | ⟨d, rfl⟩
      · obtain ⟨htask, hrest⟩ := List.cons.inj htasks
        exact Or.inr (Or.inr ⟨post, hw, htask, hrest⟩)
      · obtain ⟨htask, hrest⟩ := List.cons.inj htasks
        exact Or.inr (Or.inl ⟨d, post, hw, htask, hrest⟩)

/-- A task before the disposer puts others before the disposer. -/
lemma WaitsAt.ahead {pre own post : List (Task S)} (h : WaitsAt g p n (task :: pre) own post)
    (hn : n ∈ p.opened) : WaitsAt g (p.after task) n (p.ahead g task ++ pre) own post where
  own := h.own
  drawn other hother m hm := by
    rcases List.mem_append.mp hother with ho | ho
    · obtain ⟨a, b, ha, hb, hstep⟩ := Progress.subject_of_mem_ahead ho
      obtain rfl : b = m := Option.some.inj (hb.symm.trans hm)
      obtain ⟨x, hx, hreach⟩ := h.drawn task List.mem_cons_self a ha
      rcases hstep with rfl | hstep
      · exact ⟨x, hx, hreach⟩
      · exact ⟨x, hx, hreach.tail hstep⟩
    · exact h.drawn other (List.mem_cons_of_mem _ ho) m hm
  single other hother hd := by
    rw [List.append_assoc] at hother
    rcases List.mem_append.mp hother with ho | ho
    · exact (Progress.disposed_of_mem_ahead ho hd).2 hn
    · exact h.single other (List.mem_cons_of_mem _ ho) hd
  dependent x hx := Covers.opened_or_task (h.dependent x hx)

/-- A name that is opened waits. -/
lemma waits_of_destroy (hn : n ∉ p.opened) (hforgotten : ∀ a ∈ p.forgotten, a ∈ p.opened)
    (hrest : ∀ other ∈ rest, other.disposed ≠ some n) :
    Waits g (p.after (Task.destroy (S := S) n)) (p.ahead g (.destroy n) ++ rest) n := by
  refine ⟨((g.dependentsOf n).filter (· ∉ p.forgotten)).map Task.destroy,
    (g.disposers.get? n).toList.map (Task.dispose n), .forget n :: rest, ?_, ?_⟩
  · constructor
    case own =>
      cases g.disposers.get? n with
      | none => exact Or.inl rfl
      | some d => exact Or.inr ⟨d, rfl⟩
    case drawn =>
      intro other hother m hm
      obtain ⟨x, hx, rfl⟩ := List.mem_map.mp hother
      obtain rfl : x = m := Option.some.inj hm
      exact ⟨x, List.mem_of_mem_filter hx, ReflTransGen.refl⟩
    case single =>
      intro other hother
      rcases List.mem_append.mp hother with ho | ho
      · obtain ⟨x, -, rfl⟩ := List.mem_map.mp ho
        exact fun h => nomatch h
      · rcases List.mem_cons.mp ho with rfl | ho
        · exact fun h => nomatch h
        · exact hrest other ho
    case dependent =>
      intro x hx
      by_cases hf : x ∈ p.forgotten
      · exact Or.inl (Progress.mem_opened_after.mpr (Or.inr (hforgotten x hf)))
      · exact Or.inr (List.mem_map_of_mem (List.mem_filter.mpr ⟨hx, decide_eq_true hf⟩))
  · simp [Progress.ahead, hn, Progress.opening]

end Waits

/-! ### What the tasks of a destruction keep -/

/-- In the middle of a destruction, the names are settled that are past their own disposers, and an
opened name that is not settled waits. -/
structure Orderly (g : Registry S) (settled : Set Name) (p : Progress) (tasks : List (Task S))
    (log : List Name) : Prop where
  pending : ∀ n ∈ p.opened, n ∉ settled → Waits g p tasks n
  opened : ∀ n ∈ settled, n ∈ p.opened
  /-- What is to go before a settled name is settled. -/
  closed : ∀ n ∈ settled, ∀ x, g.Precedes x n → x ∈ settled
  disposes : ∀ task ∈ tasks, ∀ n, task.disposed = some n → n ∉ settled
  /-- What is to go before a name whose disposer has run is settled. -/
  logged : ∀ n ∈ log, ∀ x, g.Precedes x n → x ∈ settled
  ordered : log.Pairwise fun earlier later => ¬ TransGen g.Precedes later earlier

namespace Orderly

variable {g : Registry S} {settled : Set Name} {p : Progress} {task : Task S}
  {tasks rest : List (Task S)} {log : List Name} {n : Name}

lemma start (g : Registry S) (roots : List Name) :
    Orderly g ∅ {} (roots.map Task.destroy) [] where
  pending := by simp
  opened := by simp
  closed := by simp
  disposes := by simp
  logged := by simp
  ordered := List.Pairwise.nil

/-- Whatever is to go before a settled name, directly or by way of others, is settled. -/
lemma mem_settled_of_transGen (ho : Orderly g settled p tasks log) {x : Name} (hn : n ∈ settled)
    (h : TransGen g.Precedes x n) : x ∈ settled := by
  induction h using TransGen.head_induction_on with
  | single h => exact ho.closed n hn _ h
  | head h _ ih => exact ho.closed _ ih _ h

section Step

variable (hcontain : ∀ x y, y ∈ g.containedIn x → x ∈ g.dependentsOf y)
  (hacyclic : ∀ x, ¬ TransGen g.Precedes x x) (huntangled : g.Untangled)

include hcontain hacyclic huntangled

/-- When nothing is left before the disposer or the contents of a name, then whatever is to go
before the name is settled: it cannot wait, since it would have drawn the name in. -/
lemma mem_settled_of_next (ho : Orderly g settled p (task :: rest) log) {own post : List (Task S)}
    (hw : WaitsAt g p n [] own post) (htask : task.subject = some n) {x : Name}
    (hx : g.Precedes x n) : x ∈ settled := by
  have hdep : x ∈ g.dependentsOf n := hx.elim id (hcontain x n)
  have hopened : x ∈ p.opened := (hw.dependent x hdep).resolve_right List.not_mem_nil
  have hne : x ≠ n := fun e => hacyclic n (TransGen.single (e ▸ hx))
  by_contra hs
  rcases (ho.pending x hopened hs).head with
    ⟨pre, _, _, hwx, -⟩ | ⟨d, _, -, rfl, -⟩ | ⟨_, -, rfl, -⟩
  · exact huntangled x n hx (hwx.drawn task List.mem_cons_self n htask)
  · exact hne (Option.some.inj htask)
  · exact hne (Option.some.inj htask)

omit hcontain hacyclic huntangled in
/-- After a task, a waiting name waits still, unless the task was to destroy its contents. -/
lemma waits_after (ho : Orderly g settled p (task :: rest) log) (hn : n ∈ p.opened)
    (hs : n ∉ settled) :
    Waits g (p.after task) (p.ahead g task ++ rest) n ∨
      ∃ post, WaitsAt g p n [] [] post ∧ task = .destroyContents n ∧ rest = post := by
  rcases (ho.pending n hn hs).head with ⟨pre, own, post, hw, rfl⟩ | ⟨d, post, hw, rfl, rfl⟩ | h
  · exact Or.inl ⟨_, own, post, hw.ahead hn, by simp only [List.append_assoc]⟩
  · have hw' : WaitsAt g p n [] [] post := ⟨Or.inl rfl, hw.drawn, hw.single, hw.dependent⟩
    exact Or.inl ⟨[], [], post, hw', rfl⟩
  · exact Or.inr h

/-- The task that destroys the contents of a waiting name settles the name. -/
lemma settle (ho : Orderly g settled p (.destroyContents n :: rest) log) (hn : n ∈ p.opened)
    (hw : WaitsAt g p n [] [] rest) :
    Orderly g (insert n settled) (p.after (.destroyContents n : Task S))
      (p.ahead g (.destroyContents n) ++ rest) log where
  pending m hm hs := by
    have hm' : m ∈ p.opened := hm
    have hne : m ≠ n := fun e => hs (e ▸ Set.mem_insert n settled)
    rcases ho.waits_after hm' (fun h => hs (Set.mem_insert_of_mem n h)) with h | ⟨_, -, h, -⟩
    · exact h
    · cases h
      exact absurd rfl hne
  opened m hm := by
    rcases hm with rfl | hm
    · exact hn
    · exact ho.opened m hm
  closed m hm x hx := by
    rcases hm with rfl | hm
    · exact Set.mem_insert_of_mem m
        (ho.mem_settled_of_next hcontain hacyclic huntangled hw rfl hx)
    · exact Set.mem_insert_of_mem n (ho.closed m hm x hx)
  disposes other hother m hm := by
    rcases List.mem_append.mp hother with h | h
    · cases (Progress.disposed_of_mem_ahead h hm).1
    · rintro (rfl | hs)
      · exact hw.single other h hm
      · exact ho.disposes other (List.mem_cons_of_mem _ h) m hm hs
  logged m hm x hx := Set.mem_insert_of_mem n (ho.logged m hm x hx)
  ordered := ho.ordered

/-- The names whose disposers have run stay in order, and what is to go before them is settled. -/
lemma disposed_after (ho : Orderly g settled p (task :: rest) log)
    (hdue : ∀ m, task.disposed = some m → m ∈ p.opened) :
    (∀ m ∈ log ++ task.disposed.toList, ∀ x, g.Precedes x m → x ∈ settled) ∧
      (log ++ task.disposed.toList).Pairwise
        fun earlier later => ¬ TransGen g.Precedes later earlier := by
  cases hd : task.disposed with
  | none => simpa using ⟨ho.logged, ho.ordered⟩
  | some n =>
      have hs : n ∉ settled := ho.disposes task List.mem_cons_self n hd
      have hsubject : task.subject = some n := by
        cases task with
        | dispose m d => exact hd
        | _ => cases hd
      have hnext : ∀ x, g.Precedes x n → x ∈ settled := by
        rcases (ho.pending n (hdue n hd) hs).head with ⟨pre, _, post, hw, -⟩ |
          ⟨d, post, hw, -, -⟩ | ⟨post, hw, -, -⟩
        · exact absurd hd (hw.single task List.mem_cons_self)
        · exact fun x hx => ho.mem_settled_of_next hcontain hacyclic huntangled hw hsubject hx
        · exact fun x hx => ho.mem_settled_of_next hcontain hacyclic huntangled hw hsubject hx
      refine ⟨fun m hm x hx => ?_, List.pairwise_append.mpr ⟨ho.ordered, by simp, ?_⟩⟩
      · rcases List.mem_append.mp hm with hm | hm
        · exact ho.logged m hm x hx
        · obtain rfl : m = n := by simpa using hm
          exact hnext x hx
      · intro m hm later hlater hbefore
        obtain rfl : later = n := by simpa using hlater
        refine hs ?_
        rcases TransGen.tail'_iff.mp hbefore with ⟨x, hreach, hx⟩
        rcases Relation.reflTransGen_iff_eq_or_transGen.mp hreach with rfl | htrans
        · exact ho.logged m hm _ hx
        · exact ho.mem_settled_of_transGen (ho.logged m hm x hx) htrans

lemma step {roots : List Name} (ho : Orderly g settled p (task :: rest) log)
    (hc : Covers g roots p (task :: rest) log) :
    ∃ settled', Orderly g settled' (p.after task) (p.ahead g task ++ rest)
      (log ++ task.disposed.toList) := by
  by_cases hsettle : ∃ n ∈ p.opened, WaitsAt g p n [] [] rest ∧ task = .destroyContents n
  · obtain ⟨n, hn, hw, rfl⟩ := hsettle
    have hlog : log ++ (Task.destroyContents (S := S) n).disposed.toList = log :=
      List.append_nil log
    rw [hlog]
    exact ⟨_, ho.settle hcontain hacyclic huntangled hn hw⟩
  have hdue : ∀ other ∈ task :: rest, ∀ m, other.disposed = some m → m ∈ p.opened :=
    fun other hother m hm => hc.opened_of_disposed hother hm
  obtain ⟨hlogged, hordered⟩ := ho.disposed_after hcontain hacyclic huntangled
    (hdue task List.mem_cons_self)
  refine ⟨settled, ?_, ?_, ho.closed, ?_, hlogged, hordered⟩
  · intro n hn hs
    by_cases hn' : n ∈ p.opened
    · rcases ho.waits_after hn' hs with h | ⟨post, hw, htask, rfl⟩
      · exact h
      · exact absurd ⟨n, hn', hw, htask⟩ hsettle
    · obtain rfl := (Progress.mem_opened_after.mp hn).resolve_right hn'
      refine waits_of_destroy hn' hc.forgotten fun other hother hd => ?_
      exact hn' (hdue other (List.mem_cons_of_mem _ hother) n hd)
  · exact fun n hn => Progress.mem_opened_after.mpr (Or.inr (ho.opened n hn))
  · intro other hother n hd
    rcases List.mem_append.mp hother with h | h
    · exact fun hs => (Progress.disposed_of_mem_ahead h hd).2 (ho.opened n hs)
    · exact ho.disposes other (List.mem_cons_of_mem _ h) n hd

end Step

end Orderly

/-! ### The order of the disposers -/

/-- **Without tangles, disposers run in order**: no disposer runs after that of a name that it is
to go before. -/
theorem Clears.pairwise_not_precedes {r : S.Index} {g h : Registry S} {roots : List Name}
    {lines : List (Entry S)} (hc : Clears r g (roots.map Task.destroy) lines h)
    (hcontain : ∀ x y, y ∈ g.containedIn x → x ∈ g.dependentsOf y)
    (hacyclic : ∀ x, ¬ TransGen g.Precedes x x) (huntangled : g.Untangled) :
    (lines.filterMap (Entry.disposal? r)).Pairwise
      fun earlier later => ¬ TransGen g.Precedes later earlier := by
  obtain ⟨p, -, -, settled, ho⟩ := hc.progress
    (fun p tasks log => Covers g roots p tasks log ∧ ∃ settled, Orderly g settled p tasks log)
    ⟨Covers.start g roots, ∅, Orderly.start g roots⟩
    fun p task rest log ⟨hcov, _, ho⟩ =>
      ⟨hcov.step, ho.step hcontain hacyclic huntangled hcov⟩
  exact ho.ordered

/-! ### Tangled names -/

/-- What the dependents of a name take along does not change when the name is opened, since they
have their own tasks then. -/
lemma Registry.reached_after_destroy {g : Registry S} {y u : Name} (h : g.DrawsIn y u) :
    ∃ x ∈ g.dependentsOf y,
      ReflTransGen (g.perform (.destroy y)).registry.TakesAlong x u := by
  obtain ⟨x, hx, hreach⟩ := h
  induction hreach with
  | refl => exact ⟨x, hx, ReflTransGen.refl⟩
  | @tail a b _ hstep ih =>
      obtain ⟨z, hz, hreach⟩ := ih
      have hdep : (g.perform (.destroy y)).registry.dependentsOf a =
          if a = y then [] else g.dependentsOf a := NameGraph.successors_erase _ y a
      rcases hstep with hb | hb
      · by_cases ha : a = y
        · exact ⟨b, ha ▸ hb, ReflTransGen.refl⟩
        · rw [if_neg ha] at hdep
          exact ⟨z, hz, hreach.tail (Or.inl (hdep ▸ hb))⟩
      · exact ⟨z, hz, hreach.tail (Or.inr hb)⟩

/-- **A name runs its disposer after all those that it draws in.** -/
theorem Clears.exists_disposal_before {r : S.Index} {g h : Registry S} {y u : Name}
    {lines : List (Entry S)} (hc : Clears r g [.destroy y] lines h) (hne : u ≠ y)
    (hy : (g.disposers.get? y).isSome) (hu : (g.disposers.get? u).isSome)
    (hdraws : g.DrawsIn y u) :
    ∃ before after, lines.filterMap (Entry.disposal? r) = before ++ y :: after ∧ u ∈ before := by
  obtain ⟨d, hd⟩ := Option.isSome_iff_exists.mp hy
  cases hc with
  | @cons _ _ _ _ lines rest =>
      have hanswer : (g.perform (.destroy y)).answer ++ [] =
          (g.dependentsOf y).map Task.destroy ++
            (.dispose y d :: [.destroyContents y, .forget y]) := by
        simp [Registry.perform, Registry.beginDestroy, hd]
      rw [hanswer] at rest
      obtain ⟨m, l₁, l₂, hfirst, hsecond, rfl⟩ := rest.of_append
      cases hsecond with
      | @cons _ _ _ _ l₂ hlast =>
          refine ⟨l₁.filterMap (Entry.disposal? r), l₂.filterMap (Entry.disposal? r), ?_, ?_⟩
          · rw [List.filterMap_append, List.filterMap_append, List.filterMap_append,
              Registry.filterMap_disposal?_taskLines, Registry.filterMap_disposal?_taskLines]
            rfl
          · have herase : (g.perform (.destroy y)).registry.disposers.get? u =
                if u = y then none else g.disposers.get? u := NameMap.get?_erase _ y u
            rw [if_neg hne] at herase
            exact (hfirst.disposals.2 u).mpr ⟨Registry.reached_after_destroy hdraws, herase ▸ hu⟩

end InstanceRegistry
