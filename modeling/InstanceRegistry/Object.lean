/-!
Shared objects: a value together with the identity that all who hold the object agree on. Which
values there are is left open.

* `Values`: values of several types, and the names under which messages mention the types;
* `Object`: an identity with its value. Two objects are the same object when they are equal, and
  objects made at different times have different identities, whatever their values are;
* `Kind`, `Value`, `Values.basic`: numbers, characters, texts and the like.
-/

namespace InstanceRegistry

/-- The values that objects can hold, and their types. -/
structure Values where
  /-- The types. -/
  Kind : Type
  /-- The values of all types. -/
  Value : Type
  /-- The type of a value. -/
  kind : Value → Kind
  /-- The name of a type in messages. -/
  description : Kind → String
  [kindDecidableEq : DecidableEq Kind]
  [valueDecidableEq : DecidableEq Value]

attribute [instance] Values.kindDecidableEq Values.valueDecidableEq

/-- A shared object: the number under which it was made, and its value. -/
structure Object (V : Values) where
  id : Nat
  value : V.Value
  deriving DecidableEq

/-- The type of the value of an object. -/
def Object.kind {V : Values} (object : Object V) : V.Kind := V.kind object.value

/-! ### Numbers, characters and texts -/

/-- The type of a value. -/
inductive Kind where
  | int32 | nat8 | int64 | nat64 | bool | char | text | unit | int32List
  deriving DecidableEq

/-- A number, a character, a text, or what else is handed over in a session. -/
inductive Value where
  | int32 (n : Int32)
  | nat8 (n : UInt8)
  | int64 (n : Int64)
  | nat64 (n : UInt64)
  | bool (b : Bool)
  | char (c : Char)
  | text (s : String)
  | unit
  | int32List (ns : List Int32)
  deriving DecidableEq

/-- The type of a value. -/
def Value.kind : Value → Kind
  | .int32 _ => .int32
  | .nat8 _ => .nat8
  | .int64 _ => .int64
  | .nat64 _ => .nat64
  | .bool _ => .bool
  | .char _ => .char
  | .text _ => .text
  | .unit => .unit
  | .int32List _ => .int32List

/-- The name of a type in messages. -/
def Kind.description : Kind → String
  | .int32 => "i32"
  | .nat8 => "u8"
  | .int64 => "i64"
  | .nat64 => "u64"
  | .bool => "bool"
  | .char => "char"
  | .text => "alloc::string::String"
  | .unit => "()"
  | .int32List => "alloc::vec::Vec<i32>"

/-- Numbers, characters, texts and the like as the values of objects. -/
def Values.basic : Values where
  Kind := InstanceRegistry.Kind
  Value := InstanceRegistry.Value
  kind := Value.kind
  description := Kind.description

end InstanceRegistry
