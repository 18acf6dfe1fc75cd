import InstanceRegistry.Proofs.Teardown.Reach
import InstanceRegistry.Proofs.Teardown.Traversal

/-!
The order of the disposers when no name contains another one. A destruction takes the relations
apart while it goes on, and comes to names again that it has destroyed. All the same, the disposers
run in the order in which a depth-first traversal visits the names that leaves the relations alone.

* `Registry.Leaves`: what a destruction has left that has opened the names seen by a traversal;
* `Clears.first`, `Clears.own`, `Clears.close`, `Clears.again`: the tasks of one name;
* `Clears.postorder`: a destruction goes on as the traversal does;
* `Registry.teardownOrder`, `Registry.disposersAlong`: the traversal from the names with disposers,
  the last one first, and the disposers of names in the order of the names;
* `teardown_postorder`: the disposers that the destruction of all names runs;
* `teardown_postorder_ringed`: names that depend on each other.
-/

namespace InstanceRegistry

variable {S : Setup} {caller : Caller S} {r : S.Index}

open Relation (ReflTransGen TransGen)

/-! ### What a destruction leaves -/

/-- A destruction has opened the names that a traversal has seen, and has forgotten no other. -/
structure Progress.Seen (p : Progress) (seen : List Name) : Prop where
  opened : ∀ a, a ∈ p.opened ↔ a ∈ seen
  forgotten : ∀ a ∈ p.forgotten, a ∈ seen

namespace Progress.Seen

variable {p : Progress} {seen : List Name} {n : Name}

lemma congr {others : List Name} (hp : p.Seen seen) (h : ∀ a, a ∈ seen ↔ a ∈ others) :
    p.Seen others where
  opened a := (hp.opened a).trans (h a)
  forgotten a ha := (h a).mp (hp.forgotten a ha)

lemma destroy (hp : p.Seen seen) : (p.after (.destroy n : Task S)).Seen (n :: seen) where
  opened a := by
    show a ∈ n :: p.opened ↔ a ∈ n :: seen
    rw [List.mem_cons, List.mem_cons, hp.opened]
  forgotten a ha := List.mem_cons_of_mem n (hp.forgotten a ha)

lemma forget (hp : p.Seen seen) (hn : n ∈ seen) : (p.after (.forget n : Task S)).Seen seen where
  opened := hp.opened
  forgotten a ha := by
    rcases List.mem_cons.mp ha with rfl | ha
    · exact hn
    · exact hp.forgotten a ha

end Progress.Seen

/-- The registry `h` is what a destruction has left of `g` that has opened the seen names. -/
def Registry.Leaves (g : Registry S) (seen : List Name) (h : Registry S) : Prop :=
  ∃ p : Progress, p.Describes g h ∧ p.Seen seen

lemma Registry.Leaves.start (g : Registry S) : g.Leaves [] g :=
  ⟨{}, Progress.Describes.start g, fun _ => Iff.rfl, fun _ ha => ha⟩

lemma Registry.Leaves.congr {g h : Registry S} {seen others : List Name} (hl : g.Leaves seen h)
    (hsame : ∀ a, a ∈ seen ↔ a ∈ others) : g.Leaves others h := by
  obtain ⟨p, hd, hp⟩ := hl
  exact ⟨p, hd, hp.congr hsame⟩

/-! ### The tasks of one name -/

namespace Clears

variable {g h m : Registry S} {rest : List (Task S)} {lines : List (Entry S)}
  {seen names : List Name} {n : Name}

/-- One task is done, and the destruction goes on with those that it puts first. -/
lemma uncons {p : Progress} {task : Task S} (hc : Clears r h (task :: rest) lines m)
    (hd : p.Describes g h) (hn : task.subject = some n) :
    ∃ h' lines', (p.after task).Describes g h' ∧ Clears r h' (p.ahead g task ++ rest) lines' m ∧
      lines.filterMap (Entry.disposal? r) =
        task.disposed.toList ++ lines'.filterMap (Entry.disposal? r) := by
  cases hc with
  | @cons _ _ _ _ lines' hrest =>
      rw [hd.answer_perform hn] at hrest
      refine ⟨_, lines', hd.perform hn, hrest, ?_⟩
      rw [List.filterMap_append, Registry.filterMap_disposal?_taskLines]

/-- A name that was not seen is opened. Those of its dependents that are forgotten are not among the
tasks any more. -/
lemma first (hc : Clears r h (.destroy n :: rest) lines m) (hl : g.Leaves seen h) (hn : n ∉ seen) :
    ∃ (skipped : List Name) (h' : Registry S) (lines' : List (Entry S)),
      (∀ a ∈ skipped, a ∈ n :: seen) ∧ g.Leaves (n :: seen) h' ∧
      Clears r h' (((g.dependentsOf n).filter (· ∉ skipped)).map Task.destroy ++
        ((g.disposers.get? n).toList.map (Task.dispose n) ++
          .destroyContents n :: .forget n :: rest)) lines' m ∧
      lines.filterMap (Entry.disposal? r) = lines'.filterMap (Entry.disposal? r) := by
  obtain ⟨p, hd, hp⟩ := hl
  obtain ⟨h', lines', hd', hc', hlines⟩ := hc.uncons hd rfl
  have hahead : p.ahead g (.destroy n) = p.opening g n ++ [.destroyContents n, .forget n] := by
    simp [Progress.ahead, mt (hp.opened n).mp hn]
  rw [hahead, Progress.opening, List.append_assoc, List.append_assoc] at hc'
  exact ⟨p.forgotten, h', lines', fun a ha => List.mem_cons_of_mem n (hp.forgotten a ha),
    ⟨_, hd', hp.destroy⟩, hc', hlines⟩

/-- The disposer of a name runs, if it has one. -/
lemma own (hc : Clears r h ((g.disposers.get? n).toList.map (Task.dispose n) ++ rest) lines m)
    (hl : g.Leaves seen h) :
    ∃ h' lines', g.Leaves seen h' ∧ Clears r h' rest lines' m ∧
      lines.filterMap (Entry.disposal? r) =
        [n].filter (· ∈ g.disposers) ++ lines'.filterMap (Entry.disposal? r) := by
  have hmem : n ∈ g.disposers ↔ (g.disposers.get? n).isSome := NameMap.isSome_get?_iff.symm
  cases hown : g.disposers.get? n with
  | none =>
      rw [hown] at hc hmem
      exact ⟨h, lines, hl, hc, by simp [hmem]⟩
  | some d =>
      rw [hown] at hc hmem
      obtain ⟨p, hd, hp⟩ := hl
      obtain ⟨h', lines', hd', hc', hlines⟩ := uncons (n := n) hc hd rfl
      exact ⟨h', lines', ⟨p, hd', hp⟩, hc', by simpa [hmem, Task.disposed] using hlines⟩

/-- Without contents, the destruction of a name ends by forgetting the name. -/
lemma close (hc : Clears r h (.destroyContents n :: .forget n :: rest) lines m)
    (hcontents : g.containedIn n = []) (hl : g.Leaves seen h) (hn : n ∈ seen) :
    ∃ h' lines', g.Leaves seen h' ∧ Clears r h' rest lines' m ∧
      lines.filterMap (Entry.disposal? r) = lines'.filterMap (Entry.disposal? r) := by
  obtain ⟨p, hd, hp⟩ := hl
  obtain ⟨h₁, l₁, hd₁, hc₁, hl₁⟩ := hc.uncons hd rfl
  have hahead : p.ahead g (.destroyContents n) = [] := by simp [Progress.ahead, hcontents]
  rw [hahead, List.nil_append] at hc₁
  obtain ⟨h₂, l₂, hd₂, hc₂, hl₂⟩ := hc₁.uncons hd₁ rfl
  have hp₁ : (p.after (.destroyContents n : Task S)).Seen seen := ⟨hp.opened, hp.forgotten⟩
  exact ⟨h₂, l₂, ⟨_, hd₂, hp₁.forget hn⟩, hc₂, hl₁.trans hl₂⟩

/-- Without contents, the destruction of a name that was seen runs no disposer. -/
lemma again (hc : Clears r h (.destroy n :: rest) lines m) (hcontents : g.containedIn n = [])
    (hl : g.Leaves seen h) (hn : n ∈ seen) :
    ∃ h' lines', g.Leaves seen h' ∧ Clears r h' rest lines' m ∧
      lines.filterMap (Entry.disposal? r) = lines'.filterMap (Entry.disposal? r) := by
  obtain ⟨p, hd, hp⟩ := hl
  obtain ⟨h₁, l₁, hd₁, hc₁, hl₁⟩ := hc.uncons hd rfl
  have hahead : p.ahead g (.destroy n) = [.destroyContents n, .forget n] := by
    simp [Progress.ahead, (hp.opened n).mpr hn]
  rw [hahead] at hc₁
  have hp₁ : (p.after (.destroy n : Task S)).Seen seen :=
    hp.destroy.congr fun a => by simp +contextual [hn]
  obtain ⟨h', lines', hl', hc', hlines⟩ := hc₁.close hcontents ⟨_, hd₁, hp₁⟩ hn
  exact ⟨h', lines', hl', hc', hl₁.trans hlines⟩

/-! ### A destruction as a traversal -/

/-- **A destruction is a traversal**: without contents, the disposers of names run in the order of
the traversal from these names that has seen what the destruction has opened. Names that were seen
may be missing among the tasks. -/
theorem postorder (hcontents : ∀ a, g.containedIn a = []) {skipped : List Name}
    (hc : Clears r h ((names.filter (· ∉ skipped)).map Task.destroy) lines m)
    (hskipped : ∀ a ∈ skipped, a ∈ seen) (hl : g.Leaves seen h) :
    g.Leaves (g.relations.dependents.postorder seen names ++ seen) m ∧
      lines.filterMap (Entry.disposal? r) =
        (g.relations.dependents.postorder seen names).filter (· ∈ g.disposers) := by
  fun_induction NameGraph.postorder g.relations.dependents seen names
    generalizing h m skipped lines with
  | case1 seen =>
      cases hc
      exact ⟨hl, rfl⟩
  | case2 seen n rest hn ih =>
      by_cases hmem : n ∈ skipped
      · exact ih (by simpa [hmem] using hc) hskipped hl
      · rw [List.filter_cons_of_pos (by simpa using hmem), List.map_cons] at hc
        obtain ⟨h₁, l₁, hl₁, hc₁, hlines⟩ := hc.again (hcontents n) hl hn
        rw [hlines]
        exact ih hc₁ hskipped hl₁
  | case3 seen n rest hn below ihbelow =>
      rename_i ihrest
      have hmem : n ∉ skipped := fun h => hn (hskipped n h)
      have hseen : n ∈ below ++ n :: seen := List.mem_append_right _ List.mem_cons_self
      have hskipped' : ∀ a ∈ skipped, a ∈ below ++ n :: seen :=
        fun a ha => List.mem_append_right _ (List.mem_cons_of_mem n (hskipped a ha))
      rw [List.filter_cons_of_pos (by simpa using hmem), List.map_cons] at hc
      -- the dependents, the disposer, and the end of the destruction of the name
      obtain ⟨forgotten, h₁, l₁, hforgotten, hl₁, hc₁, hlines⟩ := hc.first hl hn
      obtain ⟨h₂, k₁, k₂, hbelow, hc₂, rfl⟩ := hc₁.of_append
      obtain ⟨hl₂, hk₁⟩ := ihbelow hbelow hforgotten hl₁
      obtain ⟨h₃, l₃, hl₃, hc₃, hk₂⟩ := hc₂.own hl₂
      obtain ⟨h₄, l₄, hl₄, hc₄, hk₃⟩ := hc₃.close (hcontents n) hl₃ hseen
      obtain ⟨hl₅, hk₄⟩ := ihrest hc₄ hskipped' hl₄
      refine ⟨hl₅.congr fun a => ?_, ?_⟩
      · simp only [List.mem_append, List.mem_cons]
        tauto
      · rw [hlines, List.filterMap_append, hk₁, hk₂, hk₃, hk₄, ← List.filter_append,
          ← List.filter_append, List.singleton_append]

end Clears

/-! ### The disposers of names -/

namespace Registry

/-- The names that the destruction of all names comes to, in the order of a depth-first traversal
that starts from the names with disposers, the last one first. -/
def teardownOrder (g : Registry S) : List Name :=
  g.relations.dependents.postorder [] g.disposerNames.reverse

/-- The disposers of the names, in the order of the names. -/
def disposersAlong (g : Registry S) (names : List Name) : List (Name × S.Disposer) :=
  names.filterMap fun n => (g.disposers.get? n).map (n, ·)

variable {g : Registry S}

lemma map_fst_disposersAlong (names : List Name) :
    (g.disposersAlong names).map Prod.fst = names.filter (· ∈ g.disposers) := by
  rw [disposersAlong, List.map_filterMap, ← List.filterMap_eq_filter]
  refine List.filterMap_congr fun n _ => ?_
  cases hn : g.disposers.get? n <;> simp [Option.guard, ← NameMap.isSome_get?_iff, hn]

/-- Disposers with their names are known by the names. -/
lemma eq_disposersAlong {runs : List (Name × S.Disposer)}
    (h : ∀ a d, (a, d) ∈ runs → g.disposers.get? a = some d) :
    runs = g.disposersAlong (runs.map Prod.fst) := by
  induction runs with
  | nil => rfl
  | cons first rest ih =>
      have hfirst := h first.1 first.2 List.mem_cons_self
      have hrest := ih fun a d had => h a d (List.mem_cons_of_mem _ had)
      rw [List.map_cons, disposersAlong, List.filterMap_cons, hfirst]
      exact congrArg (first :: ·) hrest

lemma disposersAlong_filter (names : List Name) :
    g.disposersAlong (names.filter (· ∈ g.disposers)) = g.disposersAlong names := by
  rw [disposersAlong, List.filterMap_filter]
  refine List.filterMap_congr fun n _ => ?_
  cases hn : g.disposers.get? n <;> simp [← NameMap.isSome_get?_iff, hn]

/-- Without contents and circles, no name draws in another one that is to go after it. -/
lemma untangled_of_contents (hcontents : ∀ a, g.containedIn a = [])
    (hacyclic : ∀ x, ¬ TransGen g.Precedes x x) : g.Untangled := by
  have hback : ∀ x u, ReflTransGen g.TakesAlong x u → ReflTransGen g.Precedes u x := by
    intro x u hreach
    refine (ReflTransGen.mono (fun a b hstep => ?_) x u hreach).swap
    refine Or.inl (hstep.resolve_right ?_)
    rw [hcontents]
    exact List.not_mem_nil
  rintro y u hyu ⟨x, hx, hreach⟩
  exact hacyclic u ((TransGen.tail' (hback x u hreach) (Or.inl hx)).tail hyu)

end Registry

lemma filterMap_disposing?_lines {β : Type} (change : Registry.Change S β) :
    (change.lines r).filterMap (Entry.disposing? r) = [] :=
  List.map_eq_nil_iff.mp
    ((filterMap_disposal?_eq _).symm.trans (filterMap_disposal?_lines r change))

/-- The destruction of all names runs the disposers in the order of the traversal. -/
lemma Clears.disposing_destroyAll {g h : Registry S} {lines : List (Entry S)}
    (hc : Clears r g [.destroyAll] lines h) (hcontents : ∀ a, g.containedIn a = []) :
    lines.filterMap (Entry.disposing? r) = g.disposersAlong g.teardownOrder := by
  have hstart : Registered r g g [.destroyAll] [] :=
    ⟨fun _ _ hd => hd, fun _ _ hd => by simp at hd, fun _ _ hd => by simp at hd⟩
  have hregistered := (hc.preserves (fun _ _ _ _ hreg => hreg.step) hstart).run
  rw [List.nil_append] at hregistered
  obtain ⟨m, l, hroots, hlines⟩ := hc.of_destroyAll
  have hall : Clears r { g with inDestruction := true }
      ((g.disposerNames.reverse.filter (· ∉ ([] : List Name))).map Task.destroy) l m := by
    simpa using hroots
  obtain ⟨-, hl⟩ := Clears.postorder (g := { g with inDestruction := true }) hcontents hall
    (fun _ ha => ha) (.start _)
  rw [Registry.eq_disposersAlong hregistered, ← filterMap_disposal?_eq, hlines, hl]
  exact Registry.disposersAlong_filter _

/-! ### The destruction of all names -/

/-- In a list that is in order, what is to come before another member does so. -/
lemma exists_append_of_pairwise {R : Name → Name → Prop} {names : List Name} {x y : Name}
    (hnames : names.Pairwise fun earlier later => ¬ R later earlier) (hne : x ≠ y)
    (hx : x ∈ names) (hy : y ∈ names) (h : R x y) :
    ∃ before after, names = before ++ y :: after ∧ x ∈ before := by
  obtain ⟨before, after, rfl⟩ := List.append_of_mem hy
  refine ⟨before, after, rfl, (List.mem_append.mp hx).resolve_right fun hlater => ?_⟩
  have hafter : x ∈ after := (List.mem_cons.mp hlater).resolve_left hne
  exact (List.pairwise_cons.mp (List.pairwise_append.mp hnames).2.1).1 x hafter h

/-- Without contents and circles, the destruction of all names runs the disposer of a name before
those of the names on which it depends. -/
lemma Clears.exists_disposal_before_destroyAll {g h : Registry S} {lines : List (Entry S)}
    (hc : Clears r g [.destroyAll] lines h) (hcontents : ∀ a, g.containedIn a = [])
    (hacyclic : ∀ x, ¬ TransGen g.Precedes x x) {x y : Name} (hxy : TransGen g.Precedes x y)
    (hx : x ∈ g.disposers) (hy : y ∈ g.disposers) :
    ∃ before after, lines.filterMap (Entry.disposal? r) = before ++ y :: after ∧ x ∈ before := by
  obtain ⟨m, l, hroots, hlines⟩ := hc.of_destroyAll
  have hall : ∀ a ∈ g.disposers, a ∈ l.filterMap (Entry.disposal? r) := by
    intro a ha
    have hroot : a ∈ g.disposerNames.reverse := List.mem_reverse.mpr ha
    exact (hroots.disposals.2 a).mpr ⟨⟨a, hroot, .refl⟩, NameMap.isSome_get?_iff.mpr ha⟩
  have hcontain : ∀ x y, y ∈ g.containedIn x → x ∈ g.dependentsOf y :=
    fun x y hy => absurd (hcontents x ▸ hy) List.not_mem_nil
  have horder := hroots.pairwise_not_precedes hcontain hacyclic
    (Registry.untangled_of_contents hcontents hacyclic)
  have hne : x ≠ y := fun e => hacyclic y (e ▸ hxy)
  rw [hlines]
  exact exists_append_of_pairwise horder hne (hall x hx) (hall y hy) hxy

/-- Without dependencies, the names with disposers are visited as they come. -/
lemma Registry.map_fst_disposersAlong_of_dependents {g : Registry S}
    (hnone : ∀ a, g.dependentsOf a = []) :
    (g.disposersAlong g.teardownOrder).map Prod.fst = g.disposerNames.reverse := by
  have horder : g.teardownOrder = g.disposerNames.reverse :=
    NameGraph.postorder_eq_self hnone (List.nodup_reverse.mpr (NameMap.nodup_names _))
      fun _ _ => List.not_mem_nil
  rw [map_fst_disposersAlong, horder]
  exact List.filter_eq_self.mpr fun a ha => decide_eq_true (List.mem_reverse.mp ha)

/-- **Without contents, a destruction is a depth-first traversal**: the destruction of all names
ends, and it has run the disposers in the order in which the traversal of the relations at its
beginning visits their names, each once. Without circles, a disposer runs before those of the names
on which its own name depends, and without any dependencies the last one registered runs first. -/
theorem teardown_postorder {w : World S} (hcontents : ∀ a, (w.registry r).containedIn a = [])
    (hdisposers : ∀ d, KeepsOff caller r (Entry.disposing? r) (caller.disposer d))
    (hobserver : QuietlyObserved caller r (Entry.disposing? r) (w.registry r)) :
    (∃ w', Ends caller (Script.destroyAll r) w () w' ∧
      w'.seen (Entry.disposing? r) = w.seen (Entry.disposing? r) ++
        (w.registry r).disposersAlong (w.registry r).teardownOrder) ∧
    (w.registry r).teardownOrder.Nodup ∧
    ((∀ x, ¬ TransGen (w.registry r).Precedes x x) →
      ∀ x y, TransGen (w.registry r).Precedes x y →
        x ∈ (w.registry r).disposers → y ∈ (w.registry r).disposers →
        ∃ before after, ((w.registry r).disposersAlong (w.registry r).teardownOrder).map Prod.fst =
          before ++ y :: after ∧ x ∈ before) ∧
    ((∀ a, (w.registry r).dependentsOf a = []) →
      ((w.registry r).disposersAlong (w.registry r).teardownOrder).map Prod.fst =
        (w.registry r).disposerNames.reverse) := by
  have hs : SilentTeardown caller r (Entry.disposing? r) :=
    ⟨hdisposers, fun _ _ => rfl, fun _ _ => rfl⟩
  obtain ⟨lines, h, w', hc, hends, hw'⟩ := hs.exists_ends_destroyAll hobserver
  have hruns := hc.disposing_destroyAll hcontents
  refine ⟨⟨w', hends, ?_⟩, NameGraph.nodup_postorder _ _ _, fun hacyclic x y hxy hx hy => ?_,
    fun hnone => ?_⟩
  · rw [hw'.seen, List.filterMap_append, filterMap_disposing?_lines, List.nil_append, hruns]
  · rw [← hruns, ← filterMap_disposal?_eq]
    exact hc.exists_disposal_before_destroyAll hcontents hacyclic hxy hx hy
  · exact Registry.map_fst_disposersAlong_of_dependents hnone

/-! ### Names that depend on each other -/

section Small

/-- Two names that depend on each other, and one that depends on itself and on one of them. -/
def ringed : Registry bare :=
  let g : Registry bare :=
    { disposers := ((NameMap.empty.insert "client" ()).insert "server" ()).insert "cache" () }
  let g := (g.apply (.depend "client" "server")).registry
  let g := (g.apply (.depend "server" "client")).registry
  let g := (g.apply (.depend "cache" "cache")).registry
  (g.apply (.depend "cache" "server")).registry

/-- The outer name depends on the middle one, which depends on the inner one. -/
def layered : Registry bare :=
  ((bareNames.apply (.depend "outer" "middle")).registry.apply (.depend "middle" "inner")).registry

lemma not_transGen_precedes_layered (x : Name) : ¬ TransGen layered.Precedes x x := by
  refine Registry.not_transGen_precedes_of_rank depth (fun x y h => depth_lt ?_) x
  have hcontents : layered.relations.contents = ∅ := by decide
  have hdep : x ∈ layered.dependentsOf y := by
    refine h.resolve_right ?_
    rw [Registry.containedIn, hcontents]
    exact List.not_mem_nil
  rw [layered, Registry.mem_dependentsOf_depend rfl, Registry.mem_dependentsOf_depend rfl] at hdep
  exact hdep.imp_right fun h => h.resolve_right List.not_mem_nil

/-- The disposers of the ring run in the order of the traversal. Of three names in layers the outer
one goes first, although it was registered first, and without dependencies it goes last. -/
theorem teardown_postorder_ringed :
    (∀ d, KeepsOff bareCaller bareIndex (Entry.disposing? bareIndex) (bareCaller.disposer d)) ∧
    (∀ g : Registry bare, QuietlyObserved bareCaller bareIndex (Entry.disposing? bareIndex) g) ∧
    (∀ a, ringed.containedIn a = []) ∧
    (∃ w', Ends bareCaller (Script.destroyAll bareIndex) ringed.alone () w' ∧
      w'.seen (Entry.disposing? bareIndex) = [("cache", ()), ("client", ()), ("server", ())]) ∧
    ringed.disposersAlong ringed.teardownOrder =
      [("cache", ()), ("client", ()), ("server", ())] ∧
    (∃ before after, (layered.disposersAlong layered.teardownOrder).map Prod.fst =
      before ++ "inner" :: after ∧ "outer" ∈ before) ∧
    (bareNames.disposersAlong bareNames.teardownOrder).map Prod.fst =
      ["inner", "middle", "outer"] := by
  have hdisposers : ∀ d : bare.Disposer, KeepsOff bareCaller bareIndex
      (Entry.disposing? bareIndex) (bareCaller.disposer d) := fun _ => keepsOff_done _
  have hobserver : ∀ g : Registry bare,
      QuietlyObserved bareCaller bareIndex (Entry.disposing? bareIndex) g := fun _ o => o.elim
  have hcontents : ∀ g : Registry bare, g.relations.contents = ∅ → ∀ a, g.containedIn a = [] := by
    intro g hg a
    rw [Registry.containedIn, hg]
    rfl
  have hringed := hcontents ringed (by decide)
  obtain ⟨⟨w', hends, hseen⟩, -⟩ :=
    teardown_postorder (r := bareIndex) (w := ringed.alone) hringed hdisposers (hobserver ringed)
  have hrun : Ends bareCaller (Script.destroyAll bareIndex) ringed.alone ()
      (run bareCaller 40 (Config.start (Script.destroyAll bareIndex) ringed.alone)).world :=
    Ends.of_result? (by decide)
  have hdone : (run bareCaller 40 (Config.start (Script.destroyAll bareIndex)
      ringed.alone)).world.seen (Entry.disposing? bareIndex) =
        [("cache", ()), ("client", ()), ("server", ())] := by rfl
  obtain rfl := (hrun.unique hends).2
  obtain ⟨-, -, hlayers, -⟩ := teardown_postorder (r := bareIndex) (w := layered.alone)
    (hcontents layered (by decide)) hdisposers (hobserver layered)
  obtain ⟨-, -, -, hflat⟩ := teardown_postorder (r := bareIndex) (w := bareNames.alone)
    (hcontents bareNames rfl) hdisposers (hobserver bareNames)
  have houter : layered.Precedes "outer" "middle" := Or.inl (by decide)
  have hmiddle : layered.Precedes "middle" "inner" := Or.inl (by decide)
  exact ⟨hdisposers, hobserver, hringed, ⟨_, hrun, hdone⟩, hseen.symm.trans hdone,
    hlayers not_transGen_precedes_layered "outer" "inner" (.tail (.single houter) hmiddle)
      (by decide) (by decide), hflat fun _ => rfl⟩

end Small

end InstanceRegistry
