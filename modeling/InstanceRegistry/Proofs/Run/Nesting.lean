import Mathlib.Tactic
import InstanceRegistry.Run.Machine

/-!
Runs inside runs. A script that is called from the middle of a run behaves as it does in a run of
its own: the calls that wait below it are neither read nor changed before it ends.

* `Reaches`: one configuration leads to another;
* `exists_run_step`, `Reaches.exists_run_done`: how many steps of a run that ends are left;
* `Ends`: the run of a script ends, with a result and in a world;
* `run_preserves`, `run_holds_iff`: what holds all along a stretch of a run, and what holds since it
  was brought about;
* `Config.inside`, `start_inside`: the moment of a run, with a continuation and a stack put below
  it, and the beginning of such a run;
* `step_inside`: the steps of a run are the same steps inside another one;
* `Ends.reaches`, `Reaches.of_inside` and `run_of_inside`: a run that ends can be put below any
  continuation, and every run that ends comes about in this way;
* `HigherUntil`, `higherUntil_script`: a script in the middle of a run is left where its own run
  ends, if ever;
* `Ends.bind`, `ends_bind_iff`: the run of one script after another.
-/

namespace InstanceRegistry

variable {S : Setup} {α β : Type} (caller : Caller S)

/-! ### Sequences of steps -/

/-- A configuration leads to another one. -/
def Reaches (c d : Config S α) : Prop := ∃ steps, run caller steps c = d

/-- The run of a script ends with a result, in the world `w'`. -/
def Ends (s : Script S α) (w : World S) (result : α) (w' : World S) : Prop :=
  Reaches caller (Config.start s w) (Config.start (.done result) w')

/-- A run begins with a step, which changes nothing if the run is at its end. -/
lemma run_succ (steps : ℕ) (c : Config S α) :
    run caller (steps + 1) c = run caller steps (step caller c) := by
  rw [run]
  cases h : c.result? with
  | none => rfl
  | some result =>
      rw [step_eq_of_result? caller h]
      exact (run_of_result? caller h steps).symm

lemma run_add (m n : ℕ) (c : Config S α) :
    run caller (m + n) c = run caller n (run caller m c) := by
  induction m generalizing c with
  | zero => rw [Nat.zero_add, run]
  | succ m ih => rw [Nat.succ_add, run_succ, run_succ, ih]

/-- A run ends with a step, which changes nothing if the run is at its end. -/
lemma run_succ' (steps : ℕ) (c : Config S α) :
    run caller (steps + 1) c = step caller (run caller steps c) := by
  rw [run_add, run_succ, run]

variable {caller}

lemma Reaches.refl (c : Config S α) : Reaches caller c c := ⟨0, rfl⟩

lemma Reaches.trans {c d e : Config S α} (h : Reaches caller c d) (h' : Reaches caller d e) :
    Reaches caller c e := by
  obtain ⟨m, rfl⟩ := h
  obtain ⟨n, rfl⟩ := h'
  exact ⟨m + n, run_add caller m n c⟩

lemma Reaches.next (c : Config S α) : Reaches caller c (step caller c) :=
  ⟨1, by rw [run_succ, run]⟩

/-- A step comes before the rest. -/
lemma Reaches.head {c d e : Config S α} (h : step caller c = d) (h' : Reaches caller d e) :
    Reaches caller c e :=
  (h ▸ Reaches.next c).trans h'

/-- A property that every step keeps holds in all that is reached. -/
lemma Reaches.preserves {P : Config S α → Prop} (hstep : ∀ c, P c → P (step caller c))
    {c d : Config S α} (h : Reaches caller c d) (hc : P c) : P d := by
  obtain ⟨n, rfl⟩ := h
  induction n generalizing c with
  | zero => exact hc
  | succ n ih => rw [run_succ]; exact ih (hstep c hc)

/-- What the steps of a stretch of a run preserve holds all along the stretch. -/
lemma run_preserves (P : Config S α → Prop) (c : Config S α) {i j : ℕ} (hi : P (run caller i c))
    (hstep : ∀ k, i ≤ k → k < j → P (run caller k c) → P (step caller (run caller k c))) :
    ∀ k, i ≤ k → k ≤ j → P (run caller k c) := by
  intro k hik
  induction k, hik using Nat.le_induction with
  | base => exact fun _ => hi
  | succ k hik ih =>
      intro hkj
      rw [run_succ']
      exact hstep k hik hkj (ih (by omega))

/-- What some steps bring about and some steps undo holds exactly if it has not been undone since it
was brought about, or since the beginning if it held there. -/
lemma run_holds_iff (P sets undoes : Config S α → Prop)
    (hstep : ∀ c, P (step caller c) ↔ sets c ∨ P c ∧ ¬ undoes c) (c : Config S α) (k : ℕ) :
    P (run caller k c) ↔ (P c ∧ ∀ l < k, ¬ undoes (run caller l c)) ∨
      ∃ i < k, sets (run caller i c) ∧ ∀ l, i < l → l < k → ¬ undoes (run caller l c) := by
  induction k with
  | zero => simp [run]
  | succ k ih =>
      rw [run_succ', hstep, ih]
      constructor
      · rintro (hsets | ⟨⟨hc, hkept⟩ | ⟨i, hi, hsets, hkept⟩, hlast⟩)
        · exact Or.inr ⟨k, Nat.lt_succ_self k, hsets, fun l hl hlk => absurd hl (by omega)⟩
        · refine Or.inl ⟨hc, fun l hl => ?_⟩
          rcases Nat.lt_succ_iff_lt_or_eq.mp hl with hl | rfl
          · exact hkept l hl
          · exact hlast
        · refine Or.inr ⟨i, by omega, hsets, fun l hil hl => ?_⟩
          rcases Nat.lt_succ_iff_lt_or_eq.mp hl with hl | rfl
          · exact hkept l hil hl
          · exact hlast
      · rintro (⟨hc, hkept⟩ | ⟨i, hi, hsets, hkept⟩)
        · exact Or.inr ⟨Or.inl ⟨hc, fun l hl => hkept l (by omega)⟩, hkept k (by omega)⟩
        · rcases Nat.lt_succ_iff_lt_or_eq.mp hi with hi | rfl
          · exact Or.inr ⟨Or.inr ⟨i, hi, hsets, fun l hil hl => hkept l hil (by omega)⟩,
              hkept k hi (Nat.lt_succ_self k)⟩
          · exact Or.inl hsets

/-- Nothing but itself is reached from the end of a run. -/
lemma Reaches.eq_of_done {result : α} {w : World S} {d : Config S α}
    (h : Reaches caller (Config.start (.done result) w) d) : d = Config.start (.done result) w := by
  obtain ⟨n, rfl⟩ := h
  exact run_of_result? caller (Config.result?_start_done result w) n

/-- What is not the end of a run makes a step before the end. -/
lemma exists_run_step {result : α} {w : World S} {c : Config S α} {n : ℕ} (hc : c.result? = none)
    (hn : run caller n c = Config.start (.done result) w) :
    ∃ m < n, run caller m (step caller c) = Config.start (.done result) w := by
  cases n with
  | zero =>
      rw [run] at hn
      rw [hn, Config.result?_start_done] at hc
      cases hc
  | succ m => exact ⟨m, Nat.lt_succ_self m, by rwa [← run_succ]⟩

/-- Of two configurations of a run, the end of the run is reached from the other one, in no more
steps. -/
lemma Reaches.exists_run_done {result : α} {w : World S} {c d : Config S α} {n : ℕ}
    (h : Reaches caller c d) (hn : run caller n c = Config.start (.done result) w) :
    ∃ m ≤ n, run caller m d = Config.start (.done result) w := by
  obtain ⟨k, rfl⟩ := h
  rcases Nat.le_total k n with hkn | hkn
  · exact ⟨n - k, Nat.sub_le n k, by rw [← run_add, Nat.add_sub_cancel' hkn, hn]⟩
  · refine ⟨0, Nat.zero_le n, ?_⟩
    rw [run, ← Nat.add_sub_cancel' hkn, run_add, hn]
    exact run_of_result? caller (Config.result?_start_done result w) _

/-- Of two configurations of a run, the end of the run is reached from the other one. -/
lemma Reaches.to_done {result : α} {w : World S} {c d : Config S α} (h : Reaches caller c d)
    (h' : Reaches caller c (Config.start (.done result) w)) :
    Reaches caller d (Config.start (.done result) w) := by
  obtain ⟨n, hn⟩ := h'
  obtain ⟨m, -, hm⟩ := h.exists_run_done hn
  exact ⟨m, hm⟩

/-- A run has one end. -/
lemma Ends.unique {s : Script S α} {w w₁ w₂ : World S} {a b : α} (h : Ends caller s w a w₁)
    (h' : Ends caller s w b w₂) : a = b ∧ w₁ = w₂ := by
  have hd := (Reaches.to_done h h').eq_of_done
  simp only [Config.start, Config.mk.injEq, heq_eq_eq, true_and, Activity.script.injEq,
    Script.done.injEq] at hd
  exact ⟨hd.1.symm, hd.2.symm⟩

/-- A run that has a result is at its end. -/
lemma Config.eq_start_of_result? {c : Config S α} {result : α} (h : c.result? = some result) :
    ∃ w, c = Config.start (.done result) w := by
  unfold Config.result? at h
  split at h
  · next w => exact ⟨w, by rw [Option.some.inj h]; rfl⟩
  · exact absurd h (by simp)

lemma Config.eq_start_world {c : Config S α} {result : α} (h : c.result? = some result) :
    c = Config.start (.done result) c.world := by
  obtain ⟨w, rfl⟩ := Config.eq_start_of_result? h
  rfl

lemma Ends.done (a : α) (w : World S) : Ends caller (.done a) w a w := Reaches.refl _

lemma ends_done_iff {a b : α} {w w' : World S} :
    Ends caller (.done a) w b w' ↔ a = b ∧ w = w' :=
  ⟨fun h => (Ends.done a w).unique h, fun ⟨ha, hw⟩ => ha ▸ hw ▸ Ends.done a w⟩

/-- A run ends in the world in which it has a result. -/
lemma Ends.of_result? {s : Script S α} {w : World S} {result : α} {steps : ℕ}
    (h : (run caller steps (Config.start s w)).result? = some result) :
    Ends caller s w result (run caller steps (Config.start s w)).world := by
  obtain ⟨w', hw'⟩ := Config.eq_start_of_result? h
  refine ⟨steps, ?_⟩
  rw [hw']
  rfl

/-! ### How many calls wait -/

/-- How many calls wait. -/
def Stack.depth : {role : Role} → Stack S α role → ℕ
  | _, .bottom => 0
  | _, .creating _ _ _ _ below => below.depth + 1
  | _, .exposing _ _ _ _ below => below.depth + 1
  | _, .disposing _ _ _ _ below => below.depth + 1
  | _, .observing _ below => below.depth + 1

variable (caller) in
/-- More than `depth` calls wait, forever or up to a moment at which `P` holds. -/
def HigherUntil (depth : ℕ) (P : Config S α → Prop) (c : Config S α) : Prop :=
  (∀ k, depth < (run caller k c).stack.depth) ∨
    ∃ k, (∀ i < k, depth < (run caller i c).stack.depth) ∧ P (run caller k c)

namespace HigherUntil

variable {depth : ℕ} {P Q : Config S α → Prop} {c : Config S α}

lemma now (h : P c) : HigherUntil caller depth P c :=
  .inr ⟨0, fun _ hi => absurd hi (Nat.not_lt_zero _), h⟩

lemma trans (h : HigherUntil caller depth P c)
    (hnext : ∀ d, P d → HigherUntil caller depth Q d) : HigherUntil caller depth Q c := by
  rcases h with hforever | ⟨m, hhigher, hm⟩
  · exact .inl hforever
  have hbefore : ∀ {n k : ℕ}, k < m + n →
      (∀ i < n, depth < (run caller i (run caller m c)).stack.depth) →
      depth < (run caller k c).stack.depth := by
    intro n k hk hn
    rcases Nat.lt_or_ge k m with hkm | hkm
    · exact hhigher k hkm
    · have hi := hn (k - m) (by omega)
      rwa [← run_add, Nat.add_sub_cancel' hkm] at hi
  rcases hnext _ hm with hforever | ⟨n, hn, hQ⟩
  · exact .inl fun k => hbefore (by omega : k < m + (k + 1)) fun i _ => hforever i
  · refine .inr ⟨m + n, fun k hk => hbefore hk hn, ?_⟩
    rwa [run_add]

lemma head (hc : depth < c.stack.depth) (h : HigherUntil caller depth P (step caller c)) :
    HigherUntil caller depth P c := by
  have hstep : HigherUntil caller depth (fun d => d = step caller c) c := by
    refine .inr ⟨1, fun i hi => ?_, by rw [run_succ, run]⟩
    obtain rfl : i = 0 := by omega
    exact hc
  refine hstep.trans ?_
  rintro d rfl
  exact h

/-- At the end of a run no call waits, so that the moment comes before. -/
lemma exists_of_reaches_done {result : α} {w : World S} (h : HigherUntil caller depth P c)
    (hends : Reaches caller c (Config.start (.done result) w)) :
    ∃ d, P d ∧ Reaches caller d (Config.start (.done result) w) := by
  rcases h with hforever | ⟨k, -, hP⟩
  · obtain ⟨n, hn⟩ := hends
    have hdepth := hforever n
    rw [hn] at hdepth
    exact absurd hdepth (Nat.not_lt_zero depth)
  · exact ⟨_, hP, Reaches.to_done ⟨k, rfl⟩ hends⟩

end HigherUntil

/-! ### A run inside another one -/

/-- The role in which a script runs that was called by a script in the role `base`, or is that
script itself. -/
@[reducible] def Role.inside (base : Role) : Role → Role
  | .client => base
  | .factory => .factory
  | .disposer => .disposer
  | .observer => .observer

section Inside

variable {base : Role}

/-- A script with a continuation after the result of the whole run. Only the script that the run
began with has that result. -/
def Script.inside (next : β → Script S (base.Result S α)) : (role : Role) →
    Script S (role.Result S β) → Script S ((base.inside role).Result S α)
  | .client, s => s.bind next
  | .factory, s => s
  | .disposer, s => s
  | .observer, s => s

/-- What is being done, with a continuation after the result of the whole run. -/
def Activity.inside (next : β → Script S (base.Result S α)) (role : Role) :
    Activity S (role.Result S β) → Activity S ((base.inside role).Result S α)
  | .script s => .script (s.inside next role)
  | .teardown r tasks s => .teardown r tasks (s.inside next role)

/-- The waiting calls, with a continuation and more waiting calls below them. -/
def Stack.inside : {role : Role} → Stack S β role → (β → Script S (base.Result S α)) →
    Stack S α base → Stack S α (base.inside role)
  | _, .bottom, _, below => below
  | _, @Stack.creating _ _ role r name opened k stack, next, below =>
    .creating r name opened (fun answer => (k answer).inside next role) (stack.inside next below)
  | _, @Stack.exposing _ _ role r name factory k stack, next, below =>
    .exposing r name factory (fun answer => (k answer).inside next role) (stack.inside next below)
  | _, @Stack.disposing _ _ role r name tasks k stack, next, below =>
    .disposing r name tasks (k.inside next role) (stack.inside next below)
  | _, @Stack.observing _ _ role k stack, next, below =>
    .observing (k.inside next role) (stack.inside next below)

variable (next : β → Script S (base.Result S α)) (below : Stack S α base)

/-- The moment of a run, with a continuation and waiting calls below it. -/
def Config.inside (c : Config S β) : Config S α :=
  ⟨base.inside c.role, c.activity.inside next c.role, c.stack.inside next below, c.world⟩

variable {next below} (caller)

lemma report_inside {role : Role} (r : S.Index) (event : Option Event)
    (a : Activity S (role.Result S β)) (stack : Stack S β role) (w : World S) :
    (report caller r event a stack w).inside next below =
      report caller r event (a.inside next role) (stack.inside next below) w := by
  unfold report
  cases event with
  | none => rfl
  | some e =>
      cases (w.registry r).observer with
      | none => rfl
      | some o => rfl

lemma commit_inside {γ : Type} {role : Role} (r : S.Index) (change : Registry.Change S γ)
    (k : γ → Activity S (role.Result S β)) (stack : Stack S β role) (w : World S) :
    (commit caller r change k stack w).inside next below =
      commit caller r change (fun answer => (k answer).inside next role)
        (stack.inside next below) w :=
  report_inside caller ..

lemma proceed_inside {role : Role} (r : S.Index) (change : Registry.Change S (List (Task S)))
    (tasks : List (Task S)) (k : Script S (role.Result S β)) (stack : Stack S β role)
    (w : World S) :
    (proceed caller r change tasks k stack w).inside next below =
      proceed caller r change tasks (k.inside next role) (stack.inside next below) w :=
  commit_inside caller ..
variable {caller}

/-- The end of a call's code wakes the call that waits for it, inside a run as well. -/
lemma step_done_inside {role : Role} (hrole : role ≠ .client) (result : role.Result S β)
    (stack : Stack S β role) (w : World S) :
    step caller (Config.inside next below ⟨role, .script (.done result), stack, w⟩) =
      (step caller ⟨role, .script (.done result), stack, w⟩).inside next below := by
  cases stack with
  | bottom => exact absurd rfl hrole
  | creating r name opened k stack =>
      exact (commit_inside caller r _ (fun answer => .script (k answer)) stack w).symm
  | exposing r name factory k stack =>
      exact (commit_inside caller r _ (fun answer => .script (k answer)) stack w).symm
  | disposing r name tasks k stack =>
      cases result with
      | ok _ => rfl
      | error failure =>
          exact (proceed_inside caller r ((w.registry r).reportFailure name failure) tasks k
            stack w).symm
  | observing k stack => rfl

lemma step_find_inside {role : Role} (r : S.Index) (name : Name) (early : Bool)
    (k : Except Error (Option S.Object) → Script S (role.Result S β)) (stack : Stack S β role)
    (w : World S) :
    step caller (Config.inside next below ⟨role, .script (.find r name early k), stack, w⟩) =
      (step caller ⟨role, .script (.find r name early k), stack, w⟩).inside next below := by
  have hk : Script.inside next role (.find r name early k) =
      .find r name early fun answer => (k answer).inside next role := by cases role <;> rfl
  simp only [Config.inside, Activity.inside, step, stepScript, hk]
  cases (w.registry r).lookup name early with
  | answered object => rfl
  | expose factory g => rfl

lemma step_demand_inside {role : Role} (r : S.Index) (name : Name) (factory : S.Factory)
    (k : Except Error S.Object → Script S (role.Result S β)) (stack : Stack S β role)
    (w : World S) :
    step caller (Config.inside next below ⟨role, .script (.demand r name factory k), stack, w⟩) =
      (step caller ⟨role, .script (.demand r name factory k), stack, w⟩).inside next below := by
  have hk : Script.inside next role (.demand r name factory k) =
      .demand r name factory fun answer => (k answer).inside next role := by cases role <;> rfl
  simp only [Config.inside, Activity.inside, step, stepScript, hk]
  cases (w.registry r).demand name with
  | answered answer notices => rfl
  | create g opened => rfl

lemma step_teardown_inside {role : Role} (r : S.Index) (tasks : List (Task S))
    (k : Script S (role.Result S β)) (stack : Stack S β role) (w : World S) :
    step caller (Config.inside next below ⟨role, .teardown r tasks k, stack, w⟩) =
      (step caller ⟨role, .teardown r tasks k, stack, w⟩).inside next below := by
  cases tasks with
  | nil => rfl
  | cons task tasks =>
      cases task with
      | dispose name disposer => rfl
      | destroy name =>
          exact (proceed_inside caller r ((w.registry r).beginDestroy name) tasks k stack w).symm
      | destroyContents name =>
          exact (proceed_inside caller r ((w.registry r).openContents name) tasks k stack w).symm
      | forget name =>
          exact (proceed_inside caller r ((w.registry r).forget name) tasks k stack w).symm
      | destroyAll =>
          exact (proceed_inside caller r (w.registry r).beginDestroyAll tasks k stack w).symm
      | reset => exact (proceed_inside caller r (w.registry r).reset tasks k stack w).symm

/-- The steps of a run are the same steps inside another one, up to its end. -/
theorem step_inside {c : Config S β} (h : c.result? = none) :
    step caller (c.inside next below) = (step caller c).inside next below := by
  obtain ⟨role, activity, stack, w⟩ := c
  cases activity with
  | teardown r tasks k => exact step_teardown_inside r tasks k stack w
  | script s =>
      cases s with
      | done result =>
          by_cases hrole : role = .client
          · subst hrole
            cases stack
            exact absurd h (by simp [Config.result?])
          · exact step_done_inside hrole result stack w
      | read k => cases role <;> rfl
      | store change k => cases role <;> rfl
      | note content k => cases role <;> rfl
      | make value k => cases role <;> rfl
      | view r k => cases role <;> rfl
      | call r u k =>
          cases role <;>
            exact (commit_inside caller r ((w.registry r).apply u)
              (fun answer => .script (k answer)) stack w).symm
      | find r name early k => exact step_find_inside r name early k stack w
      | demand r name factory k => exact step_demand_inside r name factory k stack w
      | tearDown r name k => cases role <;> rfl
      | tearDownAll r k =>
          cases role <;>
            exact (commit_inside caller r (w.registry r).announceDestroyAll
              (fun tasks => .teardown r tasks k) stack w).symm

/-- What is not the end of a run is not the end of the run around it. -/
lemma result?_inside {c : Config S β} (h : c.result? = none) :
    (c.inside next below).result? = none := by
  obtain ⟨role, activity, stack, w⟩ := c
  cases role with
  | client =>
      cases stack
      cases activity with
      | teardown r tasks k =>
          cases base <;> cases below <;> rfl
      | script s =>
          cases s with
          | done result => exact absurd h (by simp [Config.result?])
          | _ => cases base <;> cases below <;> rfl
  | factory => rfl
  | disposer => rfl
  | observer => rfl

/-- A script that is called in the middle of a run, as a run of its own inside of that one. -/
lemma start_inside (s : Script S (base.Result S α)) (below : Stack S α base) (w : World S) :
    (Config.start s w).inside Script.done below = (⟨base, .script s, below, w⟩ : Config S α) := by
  show (⟨base, .script (s.bind .done), below, w⟩ : Config S α) = _
  rw [Script.bind_pure]

/-- What a run reaches, it reaches inside another run. -/
lemma Reaches.inside {c d : Config S β} (h : Reaches caller c d) :
    Reaches caller (c.inside next below) (d.inside next below) := by
  obtain ⟨n, rfl⟩ := h
  induction n generalizing c with
  | zero => exact Reaches.refl _
  | succ n ih =>
      cases hc : c.result? with
      | some result => rw [run_of_result? caller hc]; exact Reaches.refl _
      | none =>
          rw [run_succ]
          exact Reaches.head (step_inside hc) ih

/-- A run around another one comes to its end only after the inner run has, and the two parts make
up its steps. -/
lemma run_of_inside {c : Config S β} {b : α} {w' : World S} {n : ℕ}
    (h : run caller n (c.inside next below) = Config.start (.done b) w') :
    ∃ a w₁, ∃ m ≤ n, run caller m c = Config.start (.done a) w₁ ∧
      run caller (n - m) ⟨base, .script (next a), below, w₁⟩ = Config.start (.done b) w' := by
  induction n generalizing c with
  | zero =>
      cases hc : c.result? with
      | some a =>
          obtain ⟨w₁, rfl⟩ := Config.eq_start_of_result? hc
          exact ⟨a, w₁, 0, le_rfl, rfl, h⟩
      | none =>
          have hi : (c.inside next below).result? = none := result?_inside hc
          rw [run] at h
          rw [h, Config.result?_start_done] at hi
          exact absurd hi (by simp)
  | succ n ih =>
      cases hc : c.result? with
      | some a =>
          obtain ⟨w₁, rfl⟩ := Config.eq_start_of_result? hc
          exact ⟨a, w₁, 0, Nat.zero_le _, rfl, h⟩
      | none =>
          rw [run_succ, step_inside hc] at h
          obtain ⟨a, w₁, m, hm, h₁, h₂⟩ := ih h
          exact ⟨a, w₁, m + 1, by omega, by rw [run_succ, h₁], by rwa [Nat.add_sub_add_right]⟩

/-- A run around another one comes to its end only after the inner run has. -/
lemma Reaches.of_inside {c : Config S β} {b : α} {w' : World S}
    (h : Reaches caller (c.inside next below) (Config.start (.done b) w')) :
    ∃ a w₁, Reaches caller c (Config.start (.done a) w₁) ∧
      Reaches caller ⟨base, .script (next a), below, w₁⟩ (Config.start (.done b) w') := by
  obtain ⟨n, hn⟩ := h
  obtain ⟨a, w₁, m, -, h₁, h₂⟩ := run_of_inside hn
  exact ⟨a, w₁, ⟨m, h₁⟩, n - m, h₂⟩

/-- A run that ends can be put below any continuation. -/
theorem Ends.reaches {s : Script S β} {w w' : World S} {a : β} (h : Ends caller s w a w') :
    Reaches caller ⟨base, .script (s.bind next), below, w⟩ ⟨base, .script (next a), below, w'⟩ :=
  Reaches.inside h

/-- A run that ends, with nothing left to do for the script that called for it. -/
lemma Ends.reaches_done {s : Script S (base.Result S α)} {w w' : World S} {a : base.Result S α}
    (h : Ends caller s w a w') :
    Reaches caller ⟨base, .script s, below, w⟩ ⟨base, .script (.done a), below, w'⟩ := by
  have hd : Reaches caller ⟨base, .script (s.bind .done), below, w⟩
      ⟨base, .script (.done a), below, w'⟩ := h.reaches
  rwa [Script.bind_pure] at hd

lemma depth_inside {role : Role} (stack : Stack S β role) :
    (stack.inside next below).depth = stack.depth + below.depth := by
  induction stack with
  | bottom => exact (Nat.zero_add _).symm
  | creating r name opened k stack ih =>
      simp only [Stack.inside, Stack.depth, ih]
      omega
  | exposing r name factory k stack ih =>
      simp only [Stack.inside, Stack.depth, ih]
      omega
  | disposing r name tasks k stack ih =>
      simp only [Stack.inside, Stack.depth, ih]
      omega
  | observing k stack ih =>
      simp only [Stack.inside, Stack.depth, ih]
      omega

/-- As long as a run has not ended, the run around it is inside of it. -/
lemma run_inside {c : Config S β} {steps : ℕ}
    (h : ∀ k < steps, (run caller k c).result? = none) :
    run caller steps (c.inside next below) = (run caller steps c).inside next below := by
  induction steps with
  | zero => rfl
  | succ steps ih =>
      have hprev := ih fun k hk => h k (by omega)
      rw [run_succ', run_succ', hprev, step_inside (h steps (by omega))]

/-- A script that is called in the middle of a run is never left, or is left where its own run
ends. -/
theorem higherUntil_script (s : Script S (base.Result S α)) {below : Stack S α base} {depth : ℕ}
    (hbelow : depth < below.depth) (w : World S) :
    HigherUntil caller depth (fun d => ∃ a w', Ends caller s w a w' ∧
      d = ⟨base, .script (.done a), below, w'⟩) ⟨base, .script s, below, w⟩ := by
  let c : Config S (base.Result S α) := Config.start s w
  rw [← start_inside s below w]
  have hhigher : ∀ k, (∀ i < k, (run caller i c).result? = none) →
      depth < (run caller k (c.inside Script.done below)).stack.depth := by
    intro k hk
    rw [run_inside hk]
    show depth < ((run caller k c).stack.inside Script.done below).depth
    rw [depth_inside]
    omega
  by_cases hends : ∃ k, ((run caller k c).result?).isSome
  · classical
    -- the first moment at which the script has ended
    have hfirst : ∀ i < Nat.find hends, (run caller i c).result? = none := fun i hi =>
      Option.not_isSome_iff_eq_none.mp (Nat.find_min hends hi)
    obtain ⟨a, ha⟩ := Option.isSome_iff_exists.mp (Nat.find_spec hends)
    obtain ⟨w', hw'⟩ := Config.eq_start_of_result? ha
    refine .inr ⟨Nat.find hends, fun i hi => hhigher i fun k hk => hfirst k (by omega), a, w',
      ⟨Nat.find hends, hw'⟩, ?_⟩
    rw [run_inside hfirst, hw']
    rfl
  · exact .inl fun k => hhigher k fun i _ =>
      Option.not_isSome_iff_eq_none.mp fun hi => hends ⟨i, hi⟩

end Inside

/-! ### One script after another -/

lemma Ends.bind {s : Script S β} {f : β → Script S α} {w w₁ w₂ : World S} {a : β} {b : α}
    (h : Ends caller s w a w₁) (h' : Ends caller (f a) w₁ b w₂) :
    Ends caller (s.bind f) w b w₂ := by
  have hs : Reaches caller ⟨.client, .script (s.bind f), .bottom, w⟩
      ⟨.client, .script (f a), .bottom, w₁⟩ := h.reaches
  exact hs.trans h'

/-- The run of one script after another ends as the run of the second one does, from where the run
of the first one ends. -/
theorem ends_bind_iff {s : Script S β} {f : β → Script S α} {w w₂ : World S} {b : α} :
    Ends caller (s.bind f) w b w₂ ↔
      ∃ a w₁, Ends caller s w a w₁ ∧ Ends caller (f a) w₁ b w₂ := by
  refine ⟨fun h => ?_, fun ⟨a, w₁, h₁, h₂⟩ => h₁.bind h₂⟩
  have h' : Reaches caller ((Config.start s w).inside f Stack.bottom)
      (Config.start (.done b) w₂) := h
  exact h'.of_inside

end InstanceRegistry
