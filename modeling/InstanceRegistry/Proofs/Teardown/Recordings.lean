import InstanceRegistry.Proofs.Registry.Relations
import InstanceRegistry.Proofs.Teardown.Correspondence

/-!
Dependencies and containments that are recorded under aliases. A dependency may be given under any
alias of its name. A dependent, a container and what it contains are recorded and destroyed under
the names with which they are given, whatever these names stand for.

* `Recording`: the two calls that record a pair; `Recording.Same`, `Recording.Leads`: when two of
  them come to the same, and along which names a destruction goes on after one;
* `Registry.record`, `World.record`, `Script.record`: many of them, one after another;
* `Registry.takesAlong_record`: along which names a destruction goes on after many;
* `World.record_congr`: calls that come to the same;
* `recorded_names`: the destructions after calls, with aliases or without;
* `recorded_names_nicknamed`, `recorded_under_alias`: an alias of a dependency, and one of a
  dependent.
-/

namespace InstanceRegistry

open Relation (ReflTransGen)

variable {S : Setup} {α : Type} {caller : Caller S} {r : S.Index}

/-! ### Calls -/

/-- A call that records a pair of names, as they are given. -/
inductive Recording where
  /-- The first name depends on the second one. -/
  | depend (dependent dependency : Name)
  /-- The first name contains the second one. -/
  | contain (outer inner : Name)

namespace Recording

/-- The operation that is called. -/
def update : Recording → Update S
  | depend dependent dependency => .depend dependent dependency
  | contain outer inner => .contain outer inner

/-- The calls agree, up to the alias under which they give a dependency. -/
inductive Same (canonical : Name → Name) : Recording → Recording → Prop
  | depend {dependent dependency other : Name} (h : canonical dependency = canonical other) :
      Same canonical (depend dependent dependency) (depend dependent other)
  | contain (outer inner : Name) : Same canonical (contain outer inner) (contain outer inner)

/-- After the call, the destruction of the name `a` goes on to `b`. -/
def Leads (canonical : Name → Name) : Recording → Name → Name → Prop
  | depend dependent dependency, a, b => a = canonical dependency ∧ b = dependent
  | contain outer inner, a, b => (a = canonical inner ∧ b = outer) ∨ (a = outer ∧ b = inner)

variable (call : Recording) (g : Registry S)

/-- A call reports no event. -/
lemma event_apply : (g.apply call.update).event = none := by
  cases call with
  | depend => rfl
  | contain outer inner =>
      simp only [update, Registry.apply, Registry.contain]
      split <;> rfl

/-- A call changes the relations only. -/
lemma exists_registry_apply :
    ∃ relations, (g.apply call.update).registry = { g with relations } := by
  cases call with
  | depend => exact ⟨_, rfl⟩
  | contain outer inner =>
      simp only [update, Registry.apply, Registry.contain]
      split
      · exact ⟨_, rfl⟩
      · exact ⟨_, rfl⟩

@[simp] lemma canonical_apply :
    (g.apply call.update).registry.canonical = g.canonical := by
  obtain ⟨relations, h⟩ := call.exists_registry_apply g
  rw [h]
  rfl

variable {call g}

/-- Calls that agree come to the same. -/
lemma Same.apply_eq {other : Recording} (h : Same g.canonical call other) :
    (g.apply call.update).registry = (g.apply other.update).registry ∧
      (g.apply call.update).notices = (g.apply other.update).notices := by
  cases h with
  | depend h => simp only [update, Registry.apply, Registry.depend, h, and_self]
  | contain => exact ⟨rfl, rfl⟩

end Recording

/-! ### What calls record -/

namespace Registry

variable {g : Registry S} {a b : Name}

/-- A container is a dependent of what it contains. -/
def Accounts (g : Registry S) : Prop :=
  ∀ outer, ∀ inner ∈ g.containedIn outer, outer ∈ g.dependentsOf (g.canonical inner)

lemma accounts_of_relations (h : g.relations = {}) : g.Accounts := by
  intro outer inner hinner
  rw [containedIn, h] at hinner
  cases hinner

/-- A call leads from name to name as it is given, and takes nothing away. -/
lemma takesAlong_apply (hg : g.Accounts) (call : Recording) :
    (g.apply call.update).registry.TakesAlong a b ↔
      call.Leads g.canonical a b ∨ g.TakesAlong a b := by
  cases call with
  | depend dependent dependency =>
      have hcontents : b ∈ (g.apply (.depend dependent dependency)).registry.containedIn a ↔
          b ∈ g.containedIn a := by
        simp only [apply, depend, containedIn, Relations.contents_depend]
      exact (or_congr mem_dependentsOf_apply_depend hcontents).trans or_assoc
  | contain outer inner =>
      refine (or_congr mem_dependentsOf_apply_contain mem_containedIn_contain).trans ?_
      simp only [Recording.Leads, TakesAlong]
      by_cases hknown : inner ∈ g.containedIn outer
      · -- nothing is recorded, and nothing has to be
        have hdependent := hg outer inner hknown
        constructor
        · tauto
        · rintro ((⟨rfl, rfl⟩ | hcontent) | hold)
          · exact Or.inl (Or.inr hdependent)
          · exact Or.inr (Or.inl hcontent)
          · tauto
      · tauto

lemma Accounts.apply (hg : g.Accounts) (call : Recording) :
    (g.apply call.update).registry.Accounts := by
  intro outer inner hinner
  rw [call.canonical_apply]
  cases call with
  | depend dependent dependency =>
      have hold : inner ∈ g.containedIn outer :=
        (mem_containedIn_apply hinner).resolve_left (by simp [Recording.update])
      exact mem_dependentsOf_apply (hg outer inner hold) _
  | contain x y =>
      by_cases hold : inner ∈ g.containedIn outer
      · exact mem_dependentsOf_apply (hg outer inner hold) _
      · obtain ⟨rfl, rfl⟩ := (mem_containedIn_contain.mp hinner).resolve_right hold
        exact mem_dependentsOf_apply_contain.mpr (Or.inl ⟨hold, rfl, rfl⟩)

/-- The registry after the calls. -/
def record (g : Registry S) (calls : List Recording) : Registry S :=
  calls.foldl (fun g call => (g.apply call.update).registry) g

lemma exists_record_eq (g : Registry S) (calls : List Recording) :
    ∃ relations, g.record calls = { g with relations } := by
  induction calls generalizing g with
  | nil => exact ⟨g.relations, rfl⟩
  | cons call calls ih =>
      obtain ⟨first, hfirst⟩ := call.exists_registry_apply g
      obtain ⟨relations, h⟩ := ih (g.apply call.update).registry
      refine ⟨relations, ?_⟩
      rw [record, List.foldl_cons, ← record, h, hfirst]

@[simp] lemma disposers_record (g : Registry S) (calls : List Recording) :
    (g.record calls).disposers = g.disposers := by
  obtain ⟨relations, h⟩ := g.exists_record_eq calls
  rw [h]

@[simp] lemma observer_record (g : Registry S) (calls : List Recording) :
    (g.record calls).observer = g.observer := by
  obtain ⟨relations, h⟩ := g.exists_record_eq calls
  rw [h]

/-- After the calls, a destruction goes on along what they give and what was recorded before. -/
lemma takesAlong_record (hg : g.Accounts) (calls : List Recording) :
    (g.record calls).TakesAlong a b ↔
      (∃ call ∈ calls, call.Leads g.canonical a b) ∨ g.TakesAlong a b := by
  induction calls generalizing g with
  | nil => simp [record]
  | cons call calls ih =>
      rw [record, List.foldl_cons, ← record, ih (hg.apply call), takesAlong_apply hg,
        call.canonical_apply, List.exists_mem_cons_iff, ← or_assoc]
      exact or_congr_left or_comm

end Registry

/-! ### Runs of calls -/

/-- The world after the calls. -/
def World.record (w : World S) (r : S.Index) (calls : List Recording) : World S :=
  calls.foldl (fun w call => w.carry r ((w.registry r).apply call.update)) w

/-- Makes the calls, and goes on. -/
def Script.record (r : S.Index) (calls : List Recording) (next : Script S α) : Script S α :=
  calls.foldr (fun call rest => .call r call.update fun _ => rest) next

namespace World

variable {w : World S}

lemma registry_record (w : World S) (calls : List Recording) :
    (w.record r calls).registry r = (w.registry r).record calls := by
  induction calls generalizing w with
  | nil => rfl
  | cons call calls ih =>
      rw [record, List.foldl_cons, ← record, ih, registry_carry]
      rfl

/-- The calls start no disposer. -/
lemma disposing_record (w : World S) (calls : List Recording) :
    (w.record r calls).seen (Entry.disposing? r) = w.seen (Entry.disposing? r) := by
  induction calls generalizing w with
  | nil => rfl
  | cons call calls ih =>
      rw [record, List.foldl_cons, ← record, ih, carry, seen_log, seen_setRegistry,
        List.filterMap_eq_nil_iff.mpr, List.append_nil]
      rintro e he
      obtain ⟨notice, -, rfl⟩ := List.mem_map.mp he
      rfl

/-- **Calls that agree up to aliases of dependencies come to the same.** -/
lemma record_congr {calls calls' : List Recording}
    (h : List.Forall₂ (Recording.Same (w.registry r).canonical) calls calls') :
    w.record r calls = w.record r calls' := by
  induction calls generalizing w calls' with
  | nil =>
      cases h
      rfl
  | cons call calls ih =>
      obtain _ | ⟨hfirst, hrest⟩ := h
      rename_i call' calls'
      obtain ⟨hregistry, hnotices⟩ := hfirst.apply_eq
      have hcarry : w.carry r ((w.registry r).apply call.update) =
          w.carry r ((w.registry r).apply call'.update) := by
        rw [carry, carry, hregistry, hnotices]
      rw [record, record, List.foldl_cons, List.foldl_cons, ← record, ← record, ← hcarry]
      refine ih ?_
      rwa [registry_carry, call.canonical_apply]

end World

/-- A run that makes calls goes on in the world after them. -/
lemma run_record (caller : Caller S) (calls : List Recording) (next : Script S α) (w : World S) :
    run caller calls.length (Config.start (Script.record r calls next) w) =
      Config.start next (w.record r calls) := by
  induction calls generalizing w with
  | nil => rfl
  | cons call calls ih =>
      have hstep : step caller (Config.start (Script.record r (call :: calls) next) w) =
          Config.start (Script.record r calls next)
            (w.carry r ((w.registry r).apply call.update)) := by
        simp only [Script.record, List.foldr_cons, Config.start, step, stepScript, commit,
          call.event_apply, report]
      rw [List.length_cons, run_succ, hstep, ih]
      rfl

/-! ### Destructions -/

/-- **What names mean when they are recorded**: calls that differ in the aliases of dependencies
leave the same, so that every run goes on in the same way. After any calls, a destruction runs, each
once, the disposers of the names that it reaches by what the calls give, as they give it. The names
in the other places may be replaced one to one, those with disposers by themselves. -/
theorem recorded_names {w : World S} (hstart : (w.registry r).relations = {})
    (hdisposers : ∀ d, KeepsOff caller r (Entry.disposing? r) (caller.disposer d))
    (hobserver : QuietlyObserved caller r (Entry.disposing? r) (w.registry r))
    (calls : List Recording) :
    (∀ calls', List.Forall₂ (Recording.Same (w.registry r).canonical) calls calls' →
      ∀ (α : Type) (next : Script S α) (k : ℕ), calls.length ≤ k →
        run caller k (Config.start (Script.record r calls next) w) =
          run caller k (Config.start (Script.record r calls' next) w)) ∧
    ∀ n, ∃ (runs : List (Name × S.Disposer)) (w' : World S),
      Ends caller (Script.record r calls (Script.destroy r n)) w () w' ∧
      w'.seen (Entry.disposing? r) = w.seen (Entry.disposing? r) ++ runs ∧
      (runs.map Prod.fst).Nodup ∧
      (∀ a d, (a, d) ∈ runs ↔
        ReflTransGen (fun a b => ∃ call ∈ calls, call.Leads (w.registry r).canonical a b) n a ∧
          (w.registry r).disposers.get? a = some d) ∧
      ∀ calls' ρ, Relator.BiUnique ρ → ρ n n →
        ((w.registry r).record calls).Corresponds ρ ((w.registry r).record calls') →
        ∃ v, Ends caller (Script.record r calls' (Script.destroy r n)) w () v ∧
          v.seen (Entry.disposing? r) = w.seen (Entry.disposing? r) ++ runs := by
  have hends : ∀ {calls : List Recording} {n : Name} {v : World S},
      Ends caller (Script.destroy r n) (w.record r calls) () v →
        Ends caller (Script.record r calls (Script.destroy r n)) w () v :=
    fun h => Reaches.trans ⟨_, run_record caller _ _ w⟩ h
  have hquiet : ∀ calls : List Recording,
      QuietlyObserved caller r (Entry.disposing? r) ((w.record r calls).registry r) := by
    intro calls
    refine hobserver.of_observer ?_
    rw [World.registry_record, Registry.observer_record]
  refine ⟨fun calls' hsame α next k hk => ?_, fun n => ?_⟩
  · obtain ⟨more, rfl⟩ := Nat.exists_eq_add_of_le hk
    rw [run_add, run_add, run_record, hsame.length_eq, run_record, World.record_congr hsame]
  · obtain ⟨closure, runs, w', hleast, hdestroyed, hseen, hnodup, hruns⟩ :=
      destroy_reaches_closure (w := w.record r calls) hdisposers (hquiet calls) n
    have hclosure := hleast.unique (((w.record r calls).registry r).isLeast_takesAlong n)
    have hleads : ((w.record r calls).registry r).TakesAlong =
        fun a b => ∃ call ∈ calls, call.Leads (w.registry r).canonical a b := by
      have hnone : ∀ a b, ¬ (w.registry r).TakesAlong a b := by
        intro a b h
        rw [Registry.TakesAlong, Registry.dependentsOf, Registry.containedIn, hstart] at h
        exact h.elim List.not_mem_nil List.not_mem_nil
      funext a b
      rw [World.registry_record,
        Registry.takesAlong_record (Registry.accounts_of_relations hstart)]
      exact propext (or_iff_left (hnone a b))
    rw [World.disposing_record] at hseen
    refine ⟨runs, w', hends hdestroyed, hseen, hnodup, fun a d => ?_, ?_⟩
    · rw [hruns, hclosure, hleads, World.registry_record, Registry.disposers_record]
      rfl
    · intro calls' ρ hρ hn hcorresponds
      rw [← World.registry_record, ← World.registry_record] at hcorresponds
      obtain ⟨runs', v, v', hv, hv', hseen', hseen''⟩ :=
        destroy_corresponds hρ hcorresponds hdisposers (hquiet calls) (hquiet calls') hn
      rw [World.disposing_record] at hseen' hseen''
      obtain rfl := (hdestroyed.unique hv).2
      obtain rfl : runs' = runs := List.append_cancel_left (hseen'.symm.trans hseen)
      exact ⟨v', hends hv', hseen''⟩

/-! ### Names with aliases -/

section Small

/-- Four names with disposers, and two aliases of one of them. -/
def nicknames : Registry bare :=
  let g : Registry bare :=
    { disposers := (((NameMap.empty.insert "dataSource" ()).insert "server" ()).insert
        "repository" ()).insert "pool" () }
  let g := (g.apply (.registerAlias "dataSource" "ds")).registry
  (g.apply (.registerAlias "dataSource" "source")).registry

/-- After the calls, the destruction of the name ends, with the disposers run of these names. -/
def Disposes (calls : List Recording) (n : Name) (names : List Name) : Prop :=
  ∃ w', Ends bareCaller (Script.record bareIndex calls (Script.destroy bareIndex n))
      nicknames.alone () w' ∧
    w'.seen (Entry.disposing? bareIndex) = names.map (·, ())

/-- The run of the calls and of the destruction. -/
def destroying (calls : List Recording) (n : Name) : Config bare Unit :=
  run bareCaller 30 (Config.start
    (Script.record bareIndex calls (Script.destroy bareIndex n)) nicknames.alone)

lemma disposes_of_run {calls : List Recording} {n : Name} {names : List Name}
    (hresult : (destroying calls n).result? = some ())
    (hseen : (destroying calls n).world.seen (Entry.disposing? bareIndex) = names.map (·, ())) :
    Disposes calls n names :=
  ⟨_, Ends.of_result? hresult, hseen⟩

/-- The names that are destroyed with the server, before and after an alias is replaced. -/
def Replaced (a b : Name) : Prop :=
  (a = "server" ∧ b = "server") ∨ (a = "ds" ∧ b = "source") ∨ (a = "pool" ∧ b = "pool")

instance : DecidableRel Replaced := fun a b =>
  inferInstanceAs (Decidable
    ((a = "server" ∧ b = "server") ∨ (a = "ds" ∧ b = "source") ∨ (a = "pool" ∧ b = "pool")))

lemma biUnique_replaced : Relator.BiUnique Replaced := by
  constructor
  · rintro a b c (⟨rfl, rfl⟩ | ⟨rfl, rfl⟩ | ⟨rfl, rfl⟩) (⟨rfl, h⟩ | ⟨rfl, h⟩ | ⟨rfl, h⟩)
    all_goals first | rfl | exact absurd h (by decide)
  · rintro a b c (⟨rfl, rfl⟩ | ⟨rfl, rfl⟩ | ⟨rfl, rfl⟩) (⟨h, rfl⟩ | ⟨h, rfl⟩ | ⟨h, rfl⟩)
    all_goals first | rfl | exact absurd h (by decide)

/-- The data source under either alias. -/
lemma corresponds_replaced :
    (nicknames.record [.depend "ds" "server", .contain "ds" "pool"]).Corresponds Replaced
      (nicknames.record [.depend "source" "server", .contain "source" "pool"]) := by
  refine ⟨?_, ?_, ?_, ?_⟩
  · rintro a b (⟨rfl, rfl⟩ | ⟨rfl, rfl⟩ | ⟨rfl, rfl⟩) <;> decide +kernel
  · rintro a b (⟨rfl, rfl⟩ | ⟨rfl, rfl⟩ | ⟨rfl, rfl⟩) <;> decide +kernel
  · rintro a b (⟨rfl, rfl⟩ | ⟨rfl, rfl⟩ | ⟨rfl, rfl⟩) <;> rfl
  · rintro a b (⟨rfl, rfl⟩ | ⟨rfl, rfl⟩ | ⟨rfl, rfl⟩) <;> decide +kernel

/-- A repository that depends on the data source may name it as it likes. The data source may
depend on the server and contain the pool under either alias. -/
theorem recorded_names_nicknamed :
    nicknames.relations = {} ∧ nicknames.canonical "ds" = nicknames.canonical "dataSource" ∧
    (∀ d, KeepsOff bareCaller bareIndex (Entry.disposing? bareIndex) (bareCaller.disposer d)) ∧
    QuietlyObserved bareCaller bareIndex (Entry.disposing? bareIndex) nicknames ∧
    Disposes [.depend "repository" "ds"] "dataSource" ["repository", "dataSource"] ∧
    Disposes [.depend "repository" "dataSource"] "dataSource" ["repository", "dataSource"] ∧
    Disposes [.depend "ds" "server", .contain "ds" "pool"] "server" ["pool", "server"] ∧
    Disposes [.depend "source" "server", .contain "source" "pool"] "server" ["pool", "server"] := by
  have hdisposers : ∀ d : bare.Disposer, KeepsOff bareCaller bareIndex
      (Entry.disposing? bareIndex) (bareCaller.disposer d) := fun _ => keepsOff_done _
  have hobserver : QuietlyObserved bareCaller bareIndex (Entry.disposing? bareIndex) nicknames :=
    fun o => o.elim
  have hstart : nicknames.relations = {} := by decide +kernel
  have hcanonical : nicknames.canonical "ds" = nicknames.canonical "dataSource" := by decide +kernel
  have hresult : (destroying [.depend "repository" "ds"] "dataSource").result? = some () := by
    decide +kernel
  have hseen : (destroying [.depend "repository" "ds"] "dataSource").world.seen
      (Entry.disposing? bareIndex) = ["repository", "dataSource"].map (·, ()) := by rfl
  have hown : Disposes [.depend "ds" "server", .contain "ds" "pool"] "server" ["pool", "server"] :=
    disposes_of_run (by decide +kernel) (by rfl)
  refine ⟨hstart, hcanonical, hdisposers, hobserver, disposes_of_run hresult hseen, ?_, hown, ?_⟩
  · obtain ⟨hsame, -⟩ := recorded_names (w := nicknames.alone) (r := bareIndex) hstart hdisposers
      hobserver [.depend "repository" "ds"]
    have hrun : destroying [.depend "repository" "ds"] "dataSource" =
        destroying [.depend "repository" "dataSource"] "dataSource" :=
      hsame _ (.cons (.depend hcanonical) .nil) _ _ 30 (by decide)
    rw [hrun] at hresult hseen
    exact disposes_of_run hresult hseen
  · obtain ⟨-, hdestroy⟩ := recorded_names (w := nicknames.alone) (r := bareIndex) hstart hdisposers
      hobserver [.depend "ds" "server", .contain "ds" "pool"]
    obtain ⟨runs, w', hends, hruns, -, -, hreplaced⟩ := hdestroy "server"
    obtain ⟨u, hu, hnames⟩ := hown
    obtain rfl := (hends.unique hu).2
    obtain rfl : runs = ["pool", "server"].map (·, ()) := hruns.symm.trans hnames
    exact hreplaced _ Replaced biUnique_replaced (Or.inl ⟨rfl, rfl⟩) corresponds_replaced

/-- A data source that depends on the server is destroyed with it, but not if the dependent is given
under an alias. The same goes for what a repository contains, and for what contains the pool. -/
theorem recorded_under_alias :
    nicknames.relations = {} ∧ nicknames.canonical "ds" = nicknames.canonical "dataSource" ∧
    (∀ d, KeepsOff bareCaller bareIndex (Entry.disposing? bareIndex) (bareCaller.disposer d)) ∧
    Disposes [.depend "dataSource" "server"] "server" ["dataSource", "server"] ∧
    Disposes [.depend "ds" "server"] "server" ["server"] ∧
    Disposes [.contain "repository" "dataSource"] "repository" ["repository", "dataSource"] ∧
    Disposes [.contain "repository" "ds"] "repository" ["repository"] ∧
    Disposes [.contain "dataSource" "pool"] "dataSource" ["dataSource", "pool"] ∧
    Disposes [.contain "ds" "pool"] "dataSource" ["dataSource"] :=
  ⟨by decide +kernel, by decide +kernel, fun _ => keepsOff_done _,
    disposes_of_run (by decide +kernel) (by rfl), disposes_of_run (by decide +kernel) (by rfl),
    disposes_of_run (by decide +kernel) (by rfl), disposes_of_run (by decide +kernel) (by rfl),
    disposes_of_run (by decide +kernel) (by rfl), disposes_of_run (by decide +kernel) (by rfl)⟩

end Small

end InstanceRegistry
