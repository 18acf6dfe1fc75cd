import InstanceRegistry.Scenario.Path
import InstanceRegistry.Scenario.Snapshot

/-!
The records of a session: what each step came to, and what happened on the way.

* `Answer`, `Record`: the records, over a type of what stands for an object;
* `Shown`: an object as it is shown, with the number of its first appearance;
* `Numbering`, `Numbering.present`: the objects shown so far, and the number of the next one;
* `Record.number`: a record with its objects as they are shown.
-/

namespace InstanceRegistry.Scenario

/-- What a step came to; `ω` is what stands for an object. -/
inductive Answer (ω : Type) where
  | nothing
  | object (o : ω)
  | value (v : Value)
  | text (s : String)
  | flag (b : Bool)
  | count (n : Nat)
  | names (l : List Name)
  | outcome (o : Outcome)
  | state (s : Snapshot)
  /-- The failures, the objects and the number of runs of calls with the same factory. -/
  | tally (failures : List String) (objects : List ω) (runs : Nat)

/-- What the observer of an event did. -/
inductive Reaction where
  | none
  | state (s : Snapshot)
  | forwarded (answer : Except Error Outcome)

/-- What is written down; `ω` is what stands for an object. -/
inductive Record (ω : Type) where
  /-- A step succeeded. -/
  | succeeded (path : Path) (answer : Answer ω)
  /-- A step failed. -/
  | failed (path : Path) (error : Error)
  /-- A step was passed over. -/
  | skipped (path : Path)
  /-- A program starts, after so many earlier runs. -/
  | started (path : Path) (earlier : Nat)
  /-- A registry reported an event. -/
  | event (r : Nat) (content : Event) (reaction : Reaction)
  /-- A resolver was asked. -/
  | resolved (asked : Name) (answer : Option Name)
  /-- The visible state of all registries. -/
  | states (states : List Snapshot)

/-! ### Numbers of objects -/

/-- An object as it is shown. -/
structure Shown where
  number : Nat
  value : Value

/-- The identities of the objects shown so far, the first one first. -/
structure Numbering where
  seen : List Nat := []

/-- The number under which an object is shown: one more than the number of different objects shown
before its first appearance. -/
def Numbering.present (m : Numbering) (o : Object .basic) : Numbering × Shown :=
  match m.seen.findIdx? (· = o.id) with
  | some i => (m, ⟨i + 1, o.value⟩)
  | none => (⟨m.seen ++ [o.id]⟩, ⟨m.seen.length + 1, o.value⟩)

/-- Objects as they are shown one after another. -/
def Numbering.presentAll (m : Numbering) : List (Object .basic) → Numbering × List Shown
  | [] => (m, [])
  | o :: rest =>
    let (m, first) := m.present o
    let (m, others) := m.presentAll rest
    (m, first :: others)

/-- Shown objects in rising order of their numbers. -/
def byNumber (shown : List Shown) : List Shown :=
  shown.mergeSort fun a b => a.number ≤ b.number

/-- An answer with its objects as they are shown. The objects of a tally are put in order. -/
def Answer.number (m : Numbering) : Answer (Object .basic) → Numbering × Answer Shown
  | nothing => (m, nothing)
  | object o => (m.present o).map id object
  | value v => (m, value v)
  | text s => (m, text s)
  | flag b => (m, flag b)
  | count n => (m, count n)
  | names l => (m, names l)
  | outcome o => (m, outcome o)
  | state s => (m, state s)
  | tally failures objects runs =>
    (m.presentAll objects).map id fun shown => tally failures (byNumber shown) runs

/-- A record with its objects as they are shown. -/
def Record.number (m : Numbering) : Record (Object .basic) → Numbering × Record Shown
  | succeeded path answer => (answer.number m).map id (succeeded path)
  | failed path error => (m, failed path error)
  | skipped path => (m, skipped path)
  | started path earlier => (m, started path earlier)
  | event r content reaction => (m, event r content reaction)
  | resolved asked answer => (m, resolved asked answer)
  | states all => (m, states all)

end InstanceRegistry.Scenario
