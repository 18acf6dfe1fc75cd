import InstanceRegistry.Proofs.Run.Moments
import InstanceRegistry.Proofs.Teardown.Reach

/-!
Disposers that fail. A failure is reported, and nothing else comes of it: two destructions of the
same registry that differ in which disposers fail run the same disposers in the same order, leave
the same registry, and report the same events apart from the failures.

* `Entry.about?`: the lines of the journal that tell of a registry;
* `Entry.Plain`, `Clears.plain`: the lines of a destruction, without the reports of failures;
* `DisposersEnd`: disposers that keep off a registry, each with an outcome of its own;
* `Destroys`: what the run of a destruction comes to, with the failures apart from the rest;
* `failures_change_nothing`: the same destruction with different outcomes.
-/

namespace InstanceRegistry

variable {S : Setup} {γ : Type} {r : S.Index}

/-! ### Lines about a registry -/

/-- The line, if it tells of the registry. -/
def Entry.about? (r : S.Index) : Entry S → Option (Entry S)
  | .notice s content => if s = r then some (.notice s content) else none
  | .event s content => if s = r then some (.event s content) else none
  | .started s name work => if s = r then some (.started s name work) else none
  | .note _ => none

lemma Entry.disposing?_eq_bind (e : Entry S) :
    e.disposing? r = (e.about? r).bind (Entry.disposing? r) := by
  cases e with
  | started s name work =>
      by_cases hs : s = r
      · simp [about?, hs]
      · cases work <;> simp [about?, disposing?, hs]
  | notice s content => by_cases hs : s = r <;> simp [about?, disposing?, hs]
  | event s content => by_cases hs : s = r <;> simp [about?, disposing?, hs]
  | note content => rfl

lemma Entry.event?_eq_bind (e : Entry S) :
    e.event? r = (e.about? r).bind (Entry.event? r) := by
  cases e with
  | event s content => by_cases hs : s = r <;> simp [about?, event?, hs]
  | notice s content => by_cases hs : s = r <;> simp [about?, event?, hs]
  | started s name work => by_cases hs : s = r <;> simp [about?, event?, hs]
  | note content => rfl

/-- What tells of a registry only can be read off the lines about it. -/
lemma World.seen_eq_filterMap_about {view : Entry S → Option γ}
    (hview : ∀ e, view e = (e.about? r).bind view) (w : World S) :
    w.seen view = (w.seen (Entry.about? r)).filterMap view := by
  rw [seen, seen, List.filterMap_filterMap]
  exact List.filterMap_congr fun e _ => hview e

/-! ### Lines of a destruction -/

/-- Whether the event reports that a disposer has failed. -/
def Event.isFailure : Event → Bool
  | destroyFailed .. => true
  | _ => false

/-- The line tells of the registry, and reports no failure of a disposer. -/
def Entry.Plain (r : S.Index) : Entry S → Prop
  | .notice s _ => s = r
  | .event s content => s = r ∧ content.isFailure = false
  | .started s _ _ => s = r
  | .note _ => False

lemma Registry.Change.plain {β : Type} {change : Registry.Change S β}
    (h : ∀ e, change.event = some e → e.isFailure = false) :
    ∀ e ∈ change.lines r, e.Plain r := by
  intro e he
  rcases List.mem_append.mp he with he | he
  · obtain ⟨notice, -, rfl⟩ := List.mem_map.mp he
    exact rfl
  · obtain ⟨event, hevent, rfl⟩ := List.mem_map.mp he
    exact ⟨rfl, h event (Option.mem_toList.mp hevent)⟩

lemma Registry.plain_taskLines (g : Registry S) (task : Task S) :
    ∀ e ∈ g.taskLines r task, e.Plain r := by
  cases task with
  | dispose name disposer =>
      intro e he
      obtain rfl := List.mem_singleton.mp he
      exact rfl
  | forget name =>
      refine Change.plain fun e he => ?_
      obtain rfl : Event.destroyed name = e := Option.some.inj he
      rfl
  | _ => exact Change.plain fun e he => by cases he

lemma Clears.plain {g h : Registry S} {tasks : List (Task S)} {lines : List (Entry S)}
    (hc : Clears r g tasks lines h) : ∀ e ∈ lines, e.Plain r := by
  induction hc with
  | nil g => exact fun _ he => absurd he List.not_mem_nil
  | @cons g h task tasks lines rest ih =>
      intro e he
      rcases List.mem_append.mp he with he | he
      · exact g.plain_taskLines task e he
      · exact ih e he

/-! ### Failures among the lines -/

section Outcome

variable (outcome : S.Disposer → Except Error Unit)

/-- The report about a disposer that has run for a name, if it has failed. -/
def failureEvent : Name × S.Disposer → Option Event
  | (name, disposer) =>
    match outcome disposer with
    | .ok _ => none
    | .error failure => some (.destroyFailed name failure.message)

/-- The lines about a registry after a line of a destruction, with the report of a failure. -/
def Entry.reported (r : S.Index) : Entry S → List (Entry S) :=
  Entry.shown (Entry.about? r) fun name disposer => failureLines r name (outcome disposer)

variable {outcome}

lemma filterMap_about_failureLines (name : Name) (result : Except Error Unit) :
    (failureLines r name result).filterMap (Entry.about? r) = failureLines r name result := by
  cases result with
  | ok _ => rfl
  | error failure => simp [failureLines, Entry.about?]

/-- A report starts no disposer. -/
lemma Entry.Plain.disposing_reported {e : Entry S} (he : e.Plain r) :
    (e.reported outcome r).filterMap (Entry.disposing? r) = (e.disposing? r).toList := by
  cases e with
  | started s name work =>
      obtain rfl : s = r := he
      cases work with
      | disposal disposer =>
          cases h : outcome disposer <;>
            simp [reported, shown, about?, disposing?, failureLines, h]
      | _ => simp [reported, shown, about?, disposing?]
  | notice s content =>
      obtain rfl : s = r := he
      simp [reported, shown, about?, disposing?]
  | event s content =>
      obtain rfl : s = r := he.1
      simp [reported, shown, about?, disposing?]
  | note content => exact he.elim

/-- The event of a line comes first, and then the failure of the disposer that the line starts. -/
lemma Entry.Plain.events_reported {e : Entry S} (he : e.Plain r) :
    (e.reported outcome r).filterMap (Entry.event? r) =
      (e.event? r).toList ++ ((e.disposing? r).bind (failureEvent outcome)).toList := by
  cases e with
  | started s name work =>
      obtain rfl : s = r := he
      cases work with
      | disposal disposer =>
          cases h : outcome disposer <;>
            simp [reported, shown, about?, event?, disposing?, failureLines, failureEvent,
              List.filterMap_cons, h]
      | _ => simp [reported, shown, about?, event?, disposing?]
  | notice s content =>
      obtain rfl : s = r := he
      simp [reported, shown, about?, event?, disposing?]
  | event s content =>
      obtain rfl : s = r := he.1
      simp [reported, shown, about?, event?, disposing?]
  | note content => exact he.elim

lemma Entry.Plain.isFailure_event {e : Entry S} (he : e.Plain r) {content : Event}
    (h : e.event? r = some content) : content.isFailure = false := by
  cases e with
  | event s content' =>
      obtain ⟨rfl, hplain⟩ := he
      obtain rfl : content' = content := by simpa [event?] using h
      exact hplain
  | _ => cases h

lemma isFailure_failureEvent {run : Name × S.Disposer} {content : Event}
    (h : failureEvent outcome run = some content) : content.isFailure = true := by
  obtain ⟨name, disposer⟩ := run
  simp only [failureEvent] at h
  split at h
  · cases h
  · obtain rfl := Option.some.inj h
    rfl

/-- Without the failures, the events of a line are left; without those, the failures. -/
lemma Entry.Plain.filter_events_reported {e : Entry S} (he : e.Plain r) :
    ((e.reported outcome r).filterMap (Entry.event? r)).filter (!·.isFailure) =
        (e.event? r).toList ∧
      ((e.reported outcome r).filterMap (Entry.event? r)).filter (·.isFailure) =
        ((e.disposing? r).bind (failureEvent outcome)).toList := by
  have hplain : ∀ content ∈ (e.event? r).toList, content.isFailure = false :=
    fun content hmem => he.isFailure_event (Option.mem_toList.mp hmem)
  have hfailure : ∀ content ∈ ((e.disposing? r).bind (failureEvent outcome)).toList,
      content.isFailure = true := by
    intro content hmem
    obtain ⟨run, -, hrun⟩ := Option.bind_eq_some_iff.mp (Option.mem_toList.mp hmem)
    exact isFailure_failureEvent hrun
  rw [he.events_reported, List.filter_append, List.filter_append]
  constructor
  · rw [List.filter_eq_self.mpr fun content hmem => by simp [hplain content hmem],
      List.filter_eq_nil_iff.mpr fun content hmem => by simp [hfailure content hmem],
      List.append_nil]
  · rw [List.filter_eq_nil_iff.mpr fun content hmem => by simp [hplain content hmem],
      List.filter_eq_self.mpr hfailure, List.nil_append]

end Outcome

/-! ### Two destructions -/

/-- The disposers keep off the registry, and each has its outcome wherever it is run. -/
def DisposersEnd (caller : Caller S) (r : S.Index) (outcome : S.Disposer → Except Error Unit) :
    Prop :=
  ∀ d w, ∃ w', Ends caller (caller.disposer d) w (outcome d) w' ∧
    w.Becomes r (Entry.about? r) (w.registry r) [] w'

/-- The run of the script ends, with the registry `h`. It has run the disposers `runs`, and it has
reported the events `plain` and, besides, one failure for each of the disposers that failed. -/
def Destroys (caller : Caller S) (outcome : S.Disposer → Except Error Unit) (r : S.Index)
    (s : Script S Unit) (w : World S) (h : Registry S) (runs : List (Name × S.Disposer))
    (plain : List Event) : Prop :=
  ∃ w' events, Ends caller s w () w' ∧ w'.registry r = h ∧
    w'.seen (Entry.disposing? r) = w.seen (Entry.disposing? r) ++ runs ∧
    w'.seen (Entry.event? r) = w.seen (Entry.event? r) ++ events ∧
    events.filter (!·.isFailure) = plain ∧
    events.filter (·.isFailure) = runs.filterMap (failureEvent outcome)

section Two

variable {caller : Caller S} {outcome : S.Disposer → Except Error Unit} {s : Script S Unit}
  {w w' : World S} {h : Registry S} {lines : List (Entry S)}

lemma DisposersEnd.reportsFailures (hd : DisposersEnd caller r outcome) :
    ReportsFailures caller r (Entry.about? r)
      fun name disposer => failureLines r name (outcome disposer) := by
  intro d w
  obtain ⟨w', hends, hw'⟩ := hd d w
  exact ⟨outcome d, w', hends, hw', fun name => filterMap_about_failureLines name _⟩

/-- The outcomes show in the reports of failures, and nowhere else. -/
lemma destroys_of_plain (hplain : ∀ e ∈ lines, e.Plain r) (hends : Ends caller s w () w')
    (hw' : w.Becomes r (Entry.about? r) h (lines.flatMap (Entry.reported outcome r)) w') :
    Destroys caller outcome r s w h (lines.filterMap (Entry.disposing? r))
      (lines.filterMap (Entry.event? r)) := by
  have hseen : ∀ {δ : Type} {view : Entry S → Option δ},
      (∀ e, view e = (e.about? r).bind view) → w'.seen view =
        w.seen view ++ (lines.flatMap (Entry.reported outcome r)).filterMap view := by
    intro δ view hview
    rw [World.seen_eq_filterMap_about hview, hw'.seen, List.filterMap_append,
      ← World.seen_eq_filterMap_about hview]
  refine ⟨w', _, hends, hw'.registry, ?_, hseen Entry.event?_eq_bind, ?_, ?_⟩
  · rw [hseen Entry.disposing?_eq_bind, List.filterMap_flatMap, List.filterMap_eq_flatMap_toList]
    exact congrArg _ (List.flatMap_congr fun e he => (hplain e he).disposing_reported)
  · rw [List.filterMap_flatMap, List.filter_flatMap, List.filterMap_eq_flatMap_toList]
    exact List.flatMap_congr fun e he => (hplain e he).filter_events_reported.1
  · rw [List.filterMap_flatMap, List.filter_flatMap, List.filterMap_filterMap,
      List.filterMap_eq_flatMap_toList]
    exact List.flatMap_congr fun e he => (hplain e he).filter_events_reported.2

end Two

/-- **Failing disposers never change a destruction.** With either of two assignments of outcomes to
the disposers, the destruction of a name ends, and so does that of all names. They run the same
disposers in the same order, they end with the same registry, and they report the same events, apart
from one failure for each disposer that failed, with its name and the text of its error. -/
theorem failures_change_nothing {caller₁ caller₂ : Caller S}
    {outcome₁ outcome₂ : S.Disposer → Except Error Unit} {w₁ w₂ : World S}
    (hsame : w₁.registry r = w₂.registry r)
    (hdisposers₁ : DisposersEnd caller₁ r outcome₁) (hdisposers₂ : DisposersEnd caller₂ r outcome₂)
    (hobserver₁ : QuietlyObserved caller₁ r (Entry.about? r) (w₁.registry r))
    (hobserver₂ : QuietlyObserved caller₂ r (Entry.about? r) (w₂.registry r)) :
    (∀ n, ∃ h runs plain,
      Destroys caller₁ outcome₁ r (Script.destroy r n) w₁ h runs plain ∧
        Destroys caller₂ outcome₂ r (Script.destroy r n) w₂ h runs plain) ∧
    ∃ h runs plain,
      Destroys caller₁ outcome₁ r (Script.destroyAll r) w₁ h runs plain ∧
        Destroys caller₂ outcome₂ r (Script.destroyAll r) w₂ h runs plain := by
  have hs₁ := hdisposers₁.reportsFailures
  have hs₂ := hdisposers₂.reportsFailures
  refine ⟨fun n => ?_, ?_⟩
  · obtain ⟨lines, h, hc⟩ := exists_clears r (w₁.registry r) [.destroy n]
    obtain ⟨w₁', hends₁, hw₁⟩ := hs₁.exists_ends_destroy hc hobserver₁
    obtain ⟨w₂', hends₂, hw₂⟩ := hs₂.exists_ends_destroy (hsame ▸ hc) hobserver₂
    exact ⟨h, _, _, destroys_of_plain hc.plain hends₁ hw₁, destroys_of_plain hc.plain hends₂ hw₂⟩
  · obtain ⟨lines, h, hc⟩ := exists_clears r (w₁.registry r) [.destroyAll]
    have hplain : ∀ e ∈ (w₁.registry r).announceDestroyAll.lines r ++ lines, e.Plain r := by
      intro e he
      rcases List.mem_append.mp he with he | he
      · refine Registry.Change.plain (fun e he => ?_) e he
        obtain rfl : Event.destroyAll = e := Option.some.inj he
        rfl
      · exact hc.plain e he
    obtain ⟨w₁', hends₁, hw₁⟩ := hs₁.exists_ends_destroyAll hc hobserver₁
    obtain ⟨w₂', hends₂, hw₂⟩ := hs₂.exists_ends_destroyAll (hsame ▸ hc) hobserver₂
    rw [← hsame] at hw₂
    exact ⟨h, _, _, destroys_of_plain hplain hends₁ hw₁, destroys_of_plain hplain hends₂ hw₂⟩

/-! ### A pool whose disposers fail -/

section Pool

/-- One registry, whose disposers are told apart by names. -/
def fallible : Setup := ⟨.basic, 1, Empty, Name, Empty, Unit, Empty⟩

/-- The number of the registry. -/
def fallibleIndex : fallible.Index := Fin.mk 0 Nat.one_pos

/-- Disposers that do nothing and end with the outcomes. -/
def fallibleCaller (outcome : Name → Except Error Unit) : Caller fallible where
  factory f := f.elim
  disposer name := .done (outcome name)
  observer o _ := o.elim

/-- Every disposer succeeds. -/
def allSucceed : Name → Except Error Unit := fun _ => .ok ()

/-- Only the disposer of the log succeeds. -/
def mostFail (name : Name) : Except Error Unit :=
  if name = "log" then .ok () else .error (.illegalState "busy")

/-- A pool contains a connection, which depends on the pool; the log depends on the connection. -/
def pooled : World fallible :=
  let g : Registry fallible :=
    { disposers := ((NameMap.empty.insert "pool" "pool").insert "connection" "connection").insert
        "log" "log" }
  let g := (g.apply (.contain "pool" "connection")).registry
  let g := (g.apply (.depend "log" "connection")).registry
  let g := (g.apply (.depend "connection" "pool")).registry
  ⟨#v[g], (), 0, []⟩

lemma disposersEnd_fallible (outcome : Name → Except Error Unit) :
    DisposersEnd (fallibleCaller outcome) fallibleIndex outcome :=
  fun d w => ⟨w, Ends.done (outcome d) w, World.Becomes.refl w⟩

/-- The disposers run in the same order whether most of them fail or none does. -/
theorem failures_change_nothing_pooled :
    DisposersEnd (fallibleCaller allSucceed) fallibleIndex allSucceed ∧
    DisposersEnd (fallibleCaller mostFail) fallibleIndex mostFail ∧
    (∀ outcome, QuietlyObserved (fallibleCaller outcome) fallibleIndex
      (Entry.about? fallibleIndex) (pooled.registry fallibleIndex)) ∧
    (∃ h, ∀ p ∈ [allSucceed, mostFail], Destroys (fallibleCaller p) p fallibleIndex
      (Script.destroy fallibleIndex "pool") pooled h
      [("log", "log"), ("connection", "connection"), ("pool", "pool")]
      [.destroyed "connection", .destroyed "pool", .destroyed "log", .destroyed "connection",
        .destroyed "pool"]) ∧
    ∃ h runs plain, ∀ p ∈ [allSucceed, mostFail], Destroys (fallibleCaller p) p fallibleIndex
      (Script.destroyAll fallibleIndex) pooled h runs plain := by
  have hobserver : ∀ outcome, QuietlyObserved (fallibleCaller outcome) fallibleIndex
      (Entry.about? fallibleIndex) (pooled.registry fallibleIndex) := fun _ o => o.elim
  obtain ⟨hone, h, runs, plain, hall₁, hall₂⟩ := @failures_change_nothing fallible fallibleIndex
    (fallibleCaller allSucceed) (fallibleCaller mostFail) allSucceed mostFail pooled pooled rfl
    (disposersEnd_fallible _) (disposersEnd_fallible _) (hobserver _) (hobserver _)
  obtain ⟨h', runs', plain', hone₁, hone₂⟩ := hone "pool"
  have hruns : runs' = [("log", "log"), ("connection", "connection"), ("pool", "pool")] ∧
      plain' = [.destroyed "connection", .destroyed "pool", .destroyed "log",
        .destroyed "connection", .destroyed "pool"] := by
    obtain ⟨w', events, hends, -, hseen, hevents, hplain, -⟩ := hone₁
    have hrun : Ends (fallibleCaller allSucceed) (Script.destroy fallibleIndex "pool") pooled ()
        (run (fallibleCaller allSucceed) 60
          (Config.start (Script.destroy fallibleIndex "pool") pooled)).world :=
      Ends.of_result? (by decide)
    obtain rfl := (hrun.unique hends).2
    obtain rfl : [("log", "log"), ("connection", "connection"), ("pool", "pool")] = runs' := hseen
    obtain rfl : [.destroyed "connection", .destroyed "pool", .destroyed "log",
      .destroyed "connection", .destroyed "pool"] = events := hevents
    exact ⟨rfl, hplain.symm⟩
  obtain ⟨rfl, rfl⟩ := hruns
  refine ⟨disposersEnd_fallible _, disposersEnd_fallible _, hobserver, ⟨h', ?_⟩, h, runs, plain, ?_⟩
  · simp only [List.forall_mem_cons, List.not_mem_nil, false_implies, implies_true, and_true]
    exact ⟨hone₁, hone₂⟩
  · simp only [List.forall_mem_cons, List.not_mem_nil, false_implies, implies_true, and_true]
    exact ⟨hall₁, hall₂⟩

end Pool

end InstanceRegistry
