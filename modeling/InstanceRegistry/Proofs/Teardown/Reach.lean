import InstanceRegistry.Proofs.Teardown.DisposalOrder

/-!
How far the destruction of a name reaches: the disposers that run are those of the least set of
names that contains the name and is closed under dependents and contents, whatever circles there are
among them, and each runs once.

* `Registry.Closed`, `Registry.isLeast_takesAlong`: the closed sets of names, and the least one with
  a given name;
* `Entry.disposing?`: a name with the disposer that starts for it;
* `Clears.registered`: a disposer runs for the name for which it was registered;
* `destroy_reaches_closure`: what a destruction runs.
-/

namespace InstanceRegistry

open Relation (ReflTransGen)

variable {S : Setup} {caller : Caller S} {r : S.Index}

/-! ### Closed sets of names -/

namespace Registry

/-- With every name, the set has what depends on the name and what the name contains. -/
def Closed (g : Registry S) (s : Set Name) : Prop :=
  ∀ a ∈ s, (∀ b ∈ g.dependentsOf a, b ∈ s) ∧ ∀ b ∈ g.containedIn a, b ∈ s

/-- What a name takes along is in every closed set with the name. -/
lemma Closed.mem_of_takesAlong {g : Registry S} {s : Set Name} (hs : g.Closed s) {n a : Name}
    (hn : n ∈ s) (h : ReflTransGen g.TakesAlong n a) : a ∈ s := by
  induction h with
  | refl => exact hn
  | tail _ hstep ih => exact hstep.elim ((hs _ ih).1 _) ((hs _ ih).2 _)

/-- What a name takes along, in so many steps, is the least closed set with the name. -/
lemma isLeast_takesAlong (g : Registry S) (n : Name) :
    IsLeast {s : Set Name | n ∈ s ∧ g.Closed s} {a | ReflTransGen g.TakesAlong n a} := by
  refine ⟨⟨ReflTransGen.refl, fun a ha => ⟨fun b hb => ?_, fun b hb => ?_⟩⟩, ?_⟩
  · exact ReflTransGen.tail ha (Or.inl hb)
  · exact ReflTransGen.tail ha (Or.inr hb)
  · rintro s ⟨hn, hs⟩ a ha
    exact hs.mem_of_takesAlong hn ha

end Registry

/-! ### Disposers and their names -/

/-- The name and the disposer that starts for it, as a line of the journal of the registry says. -/
def Entry.disposing? (r : S.Index) : Entry S → Option (Name × S.Disposer)
  | .started s name (.disposal disposer) => if s = r then some (name, disposer) else none
  | _ => none

lemma Entry.disposal?_eq (e : Entry S) : e.disposal? r = (e.disposing? r).map Prod.fst := by
  cases e with
  | started s name work =>
      cases work with
      | disposal disposer =>
          by_cases hs : s = r <;> simp [disposal?, disposing?, hs]
      | _ => rfl
  | _ => rfl

lemma filterMap_disposal?_eq (lines : List (Entry S)) :
    lines.filterMap (Entry.disposal? r) =
      (lines.filterMap (Entry.disposing? r)).map Prod.fst := by
  rw [List.map_filterMap]
  exact List.filterMap_congr fun e _ => e.disposal?_eq

/-- In the middle of a destruction that began with `g`, what disposes of a name is what `g` has for
the name. -/
structure Registered (r : S.Index) (g h : Registry S) (tasks : List (Task S))
    (before : List (Entry S)) : Prop where
  left : ∀ a d, h.disposers.get? a = some d → g.disposers.get? a = some d
  due : ∀ a d, .dispose a d ∈ tasks → g.disposers.get? a = some d
  run : ∀ a d, (a, d) ∈ before.filterMap (Entry.disposing? r) → g.disposers.get? a = some d

namespace Registered

variable {g h : Registry S} {task : Task S} {tasks : List (Task S)} {before : List (Entry S)}

lemma start (g : Registry S) (roots : List Name) :
    Registered r g g (roots.map Task.destroy) [] where
  left _ _ hd := hd
  due a d hd := by simp at hd
  run a d hd := by simp at hd

/-- A task takes disposers out, and puts those first that it takes out. -/
lemma disposers_perform (hreg : Registered r g h (task :: tasks) before) {a : Name}
    {d : S.Disposer} :
    ((h.perform task).registry.disposers.get? a = some d → g.disposers.get? a = some d) ∧
      (.dispose a d ∈ (h.perform task).answer → g.disposers.get? a = some d) := by
  have hnone : ∀ names : List Name, .dispose a d ∉ names.map (Task.destroy (S := S)) := by simp
  cases task with
  | destroy name =>
      refine ⟨fun hd => hreg.left a d ?_, fun hmem => hreg.left a d ?_⟩
      · have herase : (h.disposers.erase name).get? a = some d := hd
        rw [NameMap.get?_erase] at herase
        split at herase
        · cases herase
        · exact herase
      · rcases List.mem_append.mp hmem with hmem | hmem
        · rcases List.mem_append.mp hmem with hmem | hmem
          · exact absurd hmem (hnone _)
          · obtain ⟨own, hown, heq⟩ := List.mem_map.mp hmem
            cases heq
            exact Option.mem_toList.mp hown
        · simp at hmem
  | destroyContents name => exact ⟨hreg.left a d, fun hmem => absurd hmem (hnone _)⟩
  | destroyAll =>
      refine ⟨hreg.left a d, fun hmem => ?_⟩
      rcases List.mem_append.mp hmem with hmem | hmem
      · exact absurd hmem (hnone _)
      · simp at hmem
  | _ => exact ⟨hreg.left a d, fun hmem => absurd hmem List.not_mem_nil⟩

lemma step (hreg : Registered r g h (task :: tasks) before) :
    Registered r g (h.perform task).registry ((h.perform task).answer ++ tasks)
      (before ++ h.taskLines r task) where
  left a d := hreg.disposers_perform.1
  due a d hmem := by
    rcases List.mem_append.mp hmem with hfirst | hrest
    · exact hreg.disposers_perform.2 hfirst
    · exact hreg.due a d (List.mem_cons_of_mem _ hrest)
  run a d hmem := by
    rw [List.filterMap_append] at hmem
    rcases List.mem_append.mp hmem with hearlier | hnow
    · exact hreg.run a d hearlier
    · -- only a task that disposes of a name starts a disposer
      have hname : a ∈ (h.taskLines r task).filterMap (Entry.disposal? r) := by
        rw [filterMap_disposal?_eq]
        exact List.mem_map_of_mem hnow
      rw [Registry.filterMap_disposal?_taskLines] at hname
      cases task with
      | dispose n disposer =>
          have hpair : (a, d) = (n, disposer) := by
            simpa [Registry.taskLines, Entry.disposing?] using hnow
          obtain ⟨rfl, rfl⟩ := Prod.mk.inj hpair
          exact hreg.due a d List.mem_cons_self
      | _ => cases hname

end Registered

/-- A disposer runs for the name for which it was registered. -/
lemma Clears.registered {g h : Registry S} {roots : List Name} {lines : List (Entry S)}
    (hc : Clears r g (roots.map Task.destroy) lines h) {a : Name} {d : S.Disposer}
    (hmem : (a, d) ∈ lines.filterMap (Entry.disposing? r)) : g.disposers.get? a = some d :=
  (hc.preserves (fun _ _ _ _ hreg => hreg.step) (Registered.start g roots)).run a d hmem

/-! ### What a destruction runs -/

/-- **The destruction of a name reaches exactly its closure**: it ends, and it has run the disposers
of the least set of names with that name that is closed under dependents and contents, each once and
no other, when the disposers keep off the registry. -/
theorem destroy_reaches_closure {w : World S}
    (hdisposers : ∀ d, KeepsOff caller r (Entry.disposing? r) (caller.disposer d))
    (hobserver : QuietlyObserved caller r (Entry.disposing? r) (w.registry r)) (n : Name) :
    ∃ (closure : Set Name) (runs : List (Name × S.Disposer)) (w' : World S),
      IsLeast {s : Set Name | n ∈ s ∧ (w.registry r).Closed s} closure ∧
        Ends caller (Script.destroy r n) w () w' ∧
        w'.seen (Entry.disposing? r) = w.seen (Entry.disposing? r) ++ runs ∧
        (runs.map Prod.fst).Nodup ∧
        ∀ a d, (a, d) ∈ runs ↔ a ∈ closure ∧ (w.registry r).disposers.get? a = some d := by
  have hs : SilentTeardown caller r (Entry.disposing? r) :=
    ⟨hdisposers, fun _ _ => rfl, fun _ _ => rfl⟩
  obtain ⟨lines, h, w', hc, hends, hw'⟩ := hs.exists_ends_destroy n hobserver
  have hroots : Clears r (w.registry r) ([n].map Task.destroy) lines h := hc
  obtain ⟨hnodup, hreached⟩ := hroots.disposals
  rw [filterMap_disposal?_eq] at hnodup hreached
  refine ⟨_, _, w', (w.registry r).isLeast_takesAlong n, hends, hw'.seen, hnodup, fun a d => ?_⟩
  constructor
  · intro hmem
    have hname := (hreached a).mp (List.mem_map_of_mem hmem)
    obtain ⟨⟨root, hroot, hpath⟩, -⟩ := hname
    rw [List.mem_singleton.mp hroot] at hpath
    exact ⟨hpath, hroots.registered hmem⟩
  · rintro ⟨hpath, hd⟩
    have hname := (hreached a).mpr ⟨⟨n, List.mem_singleton_self n, hpath⟩, by simp [hd]⟩
    obtain ⟨⟨a', d'⟩, hmem, rfl⟩ := List.mem_map.mp hname
    obtain rfl : d' = d := Option.some.inj ((hroots.registered hmem).symm.trans hd)
    exact hmem

/-! ### A registry with circles -/

/-- Two names that depend on each other and contain the same third one, which depends on itself, and
a name apart from them. -/
def entangled : Registry bare :=
  let g : Registry bare :=
    { disposers := (((NameMap.empty.insert "apart" ()).insert "left" ()).insert "right" ()).insert
        "shared" () }
  let g := (g.apply (.depend "left" "right")).registry
  let g := (g.apply (.depend "right" "left")).registry
  let g := (g.apply (.contain "left" "shared")).registry
  let g := (g.apply (.contain "right" "shared")).registry
  (g.apply (.depend "shared" "shared")).registry

lemma closed_entangled : entangled.Closed {"left", "right", "shared"} := by
  rintro a (rfl | rfl | rfl)
  · have hdependents : entangled.dependentsOf "left" = ["right"] := by decide
    have hcontents : entangled.containedIn "left" = ["shared"] := by decide
    simp [hdependents, hcontents]
  · have hdependents : entangled.dependentsOf "right" = ["left"] := by decide
    have hcontents : entangled.containedIn "right" = ["shared"] := by decide
    simp [hdependents, hcontents]
  · have hdependents : entangled.dependentsOf "shared" = ["left", "right", "shared"] := by decide
    have hcontents : entangled.containedIn "shared" = [] := by decide
    simp [hdependents, hcontents]

/-- What is entangled is destroyed, each name once, and the name apart is not. -/
theorem destroy_reaches_closure_entangled :
    (∀ d, KeepsOff bareCaller bareIndex (Entry.disposing? bareIndex) (bareCaller.disposer d)) ∧
    QuietlyObserved bareCaller bareIndex (Entry.disposing? bareIndex) entangled ∧
    IsLeast {s : Set Name | "left" ∈ s ∧ entangled.Closed s} {"left", "right", "shared"} ∧
    ∃ w', Ends bareCaller (Script.destroy bareIndex "left") entangled.alone () w' ∧
      w'.seen (Entry.disposing? bareIndex) = [("shared", ()), ("right", ()), ("left", ())] := by
  have hdisposers : ∀ d : bare.Disposer, KeepsOff bareCaller bareIndex
      (Entry.disposing? bareIndex) (bareCaller.disposer d) := fun _ => keepsOff_done _
  have hobserver : QuietlyObserved bareCaller bareIndex (Entry.disposing? bareIndex) entangled :=
    fun o => o.elim
  obtain ⟨closure, runs, w', hleast, hends, hseen, -, hruns⟩ :=
    destroy_reaches_closure (w := entangled.alone) hdisposers hobserver "left"
  have hrun : Ends bareCaller (Script.destroy bareIndex "left") entangled.alone ()
      (run bareCaller 40
        (Config.start (Script.destroy bareIndex "left") entangled.alone)).world :=
    Ends.of_result? (by decide)
  have hdone : (run bareCaller 40 (Config.start (Script.destroy bareIndex "left")
      entangled.alone)).world.seen (Entry.disposing? bareIndex) =
        [("shared", ()), ("right", ()), ("left", ())] := by rfl
  obtain rfl := (hrun.unique hends).2
  obtain rfl : runs = [("shared", ()), ("right", ()), ("left", ())] := hseen.symm.trans hdone
  have hclosure : closure = {"left", "right", "shared"} := by
    refine Set.Subset.antisymm (hleast.2 ⟨Or.inl rfl, closed_entangled⟩) ?_
    rintro a (rfl | rfl | rfl)
    · exact ((hruns "left" ()).mp (.tail _ (.tail _ (.head _)))).1
    · exact ((hruns "right" ()).mp (.tail _ (.head _))).1
    · exact ((hruns "shared" ()).mp (.head _)).1
  exact ⟨hdisposers, hobserver, hclosure ▸ hleast, _, hrun, hdone⟩

end InstanceRegistry
