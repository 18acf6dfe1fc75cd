import InstanceRegistry.Registry.Basic

/-!
Looking objects up and creating them. Both may run a factory of the caller, and are therefore in two
parts: what is done before the factory runs, and what is done with its result.

* `Registry.lookup`, `Registry.finishExposure`: a lookup, which during a creation may hand out the
  object under construction;
* `Registry.demand`, `Registry.finishCreation`: a request for the object of a name, which creates
  it when it is absent;
* `Registry.mark`, `Registry.unmark`: the marks of names that are being created;
* `Registry.openReports`, `Registry.closeReports`: the errors reported during the outermost
  creation.
-/

namespace InstanceRegistry

/-- What a lookup comes to. -/
inductive Lookup (S : Setup) where
  /-- It is answered at once. -/
  | answered (object : Option S.Object)
  /-- An early factory is taken out of the registry, to be run. -/
  | expose (factory : S.Factory) (registry : Registry S)

/-- What a request for the object of a name comes to. -/
inductive Demand (S : Setup) where
  /-- It is answered without a factory, after some log lines. -/
  | answered (answer : Except Error S.Object) (notices : List Notice)
  /-- A creation begins. It may have `opened` the record of reported errors. -/
  | create (registry : Registry S) (opened : Bool)

namespace Registry

variable {S : Setup}

/-! ### Lookups -/

/-- Looks a name up. A finished object is the answer; without one, only a name that is being created
has an answer: the object that was handed out before, or else the one of its early factory, if
`early` allows it. -/
def lookup (g : Registry S) (name : Name) (early : Bool) : Lookup S :=
  match g.object? name with
  | some object => .answered (some object)
  | none =>
    if g.isMarked name then
      match g.earlyReferences.get? name with
      | some object => .answered (some object)
      | none =>
        if early then
          match g.earlyFactories.get? name with
          | some factory =>
            .expose factory { g with earlyFactories := g.earlyFactories.erase name }
          | none => .answered none
        else .answered none
    else .answered none

/-- Keeps the object that an early factory handed out. A factory that failed is put back, unless
another one was installed meanwhile. -/
def finishExposure (g : Registry S) (name : Name) (factory : S.Factory) :
    Except Error S.Object → Change S (Except Error (Option S.Object))
  | .ok object =>
    { registry := { g with earlyReferences := g.earlyReferences.insert name object }
      answer := .ok (some object)
      notices := [.exposing name]
      event := some (.earlyReference name) }
  | .error e =>
    { registry :=
        if name ∈ g.earlyFactories then g
        else { g with earlyFactories := g.earlyFactories.insert name factory }
      answer := .error e }

/-! ### Marks -/

/-- Marks a name as being created, unless it is excluded; a name that is marked is refused. -/
def mark (g : Registry S) (name : Name) : Option (Registry S) :=
  if name ∈ g.excluded then some g
  else if name ∈ g.inCreation then none
  else some { g with inCreation := g.inCreation.add name }

/-- Takes the mark away, unless the name is excluded; a name without a mark is refused. -/
def unmark (g : Registry S) (name : Name) : Option (Registry S) :=
  if name ∈ g.excluded then some g
  else if name ∈ g.inCreation then some { g with inCreation := g.inCreation.erase name }
  else none

/-! ### Reported errors -/

/-- Starts the record of reported errors, and says whether it was not there before. -/
def openReports (g : Registry S) : Registry S × Bool :=
  match g.suppressed with
  | some _ => (g, false)
  | none => ({ g with suppressed := some [] }, true)

/-- Ends the record of reported errors for the creation that `opened` it, and yields it. -/
def closeReports (g : Registry S) (opened : Bool) : Registry S × List Error :=
  if opened then ({ g with suppressed := none }, g.suppressed.getD []) else (g, [])

/-! ### Creation -/

/-- Asks for the object of a name. A finished object is the answer, and while all objects are being
destroyed nothing is created. A name that is being created already is refused. -/
def demand (g : Registry S) (name : Name) : Demand S :=
  match g.object? name with
  | some object => .answered (.ok object) []
  | none =>
    if g.inDestruction then .answered (.error (.creationForbidden name)) []
    else
      match g.mark name with
      | none => .answered (.error (.inCreation name)) [.creating name]
      | some marked =>
        let (registry, opened) := marked.openReports
        .create registry opened

/-- What a factory's result comes to, after its mark is taken away. An object is bound, whatever was
bound meanwhile. After an illegal state, an object that was bound meanwhile is the answer. Any other
failure is wrapped, with the errors reported meanwhile. -/
def settle (g : Registry S) (name : Name) (reported : List Error) :
    Except Error S.Object → Change S (Except Error S.Object)
  | .ok object =>
    { registry := g.bind name object, answer := .ok object, event := some (.created name) }
  | .error (.illegalState reason) =>
    match g.object? name with
    | some object => { registry := g, answer := .ok object, notices := [.appeared name reason] }
    | none => { registry := g, answer := .error (.illegalState reason) }
  | .error e => { registry := g, answer := .error (.creationFailed name e reported) }

/-- Ends a creation with the result of its factory. A missing mark prevails over any result. -/
def finishCreation (g : Registry S) (name : Name) (opened : Bool)
    (result : Except Error S.Object) : Change S (Except Error S.Object) :=
  let (closed, reported) := g.closeReports opened
  match closed.unmark name with
  | none =>
    { registry := closed, answer := .error (.notInCreation name), notices := [.unmarked name] }
  | some unmarked => unmarked.settle name reported result

end Registry

end InstanceRegistry
