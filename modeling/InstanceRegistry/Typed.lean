import InstanceRegistry.Run.Script

/-!
Typed access to a registry: values go in by type and come out by type, under any alias of their
name.

* `Registry.containsCanonical`: whether an object is bound to what a name stands for;
* `Object.expect`: an object of a given type;
* `Script.registerValue`, `Script.get`, `Script.getValue`, `Script.obtainOf`: registration, lookup
  and creation by type;
* `Product`, `Script.obtainProduct`: an object that stands in for what it produces;
* `Script.wrap`: a script that ends with a value as one that ends with a new object.
-/

namespace InstanceRegistry

variable {S : Setup}

/-- Whether a finished object is bound to what the name stands for. -/
def Registry.containsCanonical (g : Registry S) (name : Name) : Bool :=
  g.contains (g.canonical name)

/-- The object, if it has the type; `description` is the text for the type in the failure. -/
def Object.expect (object : S.Object) (name : Name) (kind : S.Kind) (description : String) :
    Except Error S.Object :=
  if object.kind = kind then .ok object else .error (.typeMismatch name description)

/-- What stands in for an object that it produces itself. -/
structure Product (S : Setup) where
  /-- The type of what is produced. -/
  kind : S.Kind
  /-- The text for that type in failures. -/
  description : String := S.description kind
  /-- Whether all users share what is produced. -/
  shared : Bool := true
  factory : S.Factory

namespace Script

/-- A script that ends with a value as one that ends with a new object of that value. -/
def wrap (s : Script S (Except Error S.Value)) : Script S (Except Error S.Object) := do
  match ← s with
  | .ok value => return .ok (← newObject value)
  | .error e => return .error e

/-- Binds a new object of the value. -/
def registerValue (r : S.Index) (name : Name) (value : S.Value) :
    Script S (Except Error Outcome) := do
  let object ← newObject value
  update r (.register name object)

/-- The object of the type under the name or what it stands for. -/
def get (r : S.Index) (name : Name) (kind : S.Kind) : Script S (Except Error S.Object) := do
  let canonical := (← registry r).canonical name
  match ← lookup r canonical true with
  | .ok (some object) => return object.expect canonical kind (S.description kind)
  | .ok none => return .error (.notFound canonical)
  | .error e => return .error e

/-- The value of the object of the type under the name or what it stands for. -/
def getValue (r : S.Index) (name : Name) (kind : S.Kind) : Script S (Except Error S.Value) := do
  return (← get r name kind).map Object.value

/-- The object of the type under what the name stands for, created if it is absent. -/
def obtainOf (r : S.Index) (name : Name) (kind : S.Kind) (factory : S.Factory) :
    Script S (Except Error S.Object) := do
  let canonical := (← registry r).canonical name
  match ← obtain r canonical factory with
  | .ok object => return object.expect canonical kind (S.description kind)
  | .error e => return .error e

/-- What the product under the name stands in for, created if it is absent. The name is taken as
given, and a product that is not shared is refused. -/
def obtainProduct (r : S.Index) (name : Name) (product : Product S) :
    Script S (Except Error S.Object) := do
  if product.shared then
    match ← obtain r name product.factory with
    | .ok object => return object.expect name product.kind product.description
    | .error e => return .error e
  else return .error (.notShared name)

end Script

end InstanceRegistry
