import InstanceRegistry.NameMap.Basic

/-!
The failures of a registry, by cause.

* `Error`: one constructor per cause. A creation that fails keeps the failure of its factory and
  the errors reported meanwhile; a caller's failure is a text with the causes that it has of its
  own, or an error handed back under the caller's name (`Error.enclosed`);
* `Error.message`: the text of a failure;
* `Error.related`: the errors reported while a creation failed;
* `Error.rootCause`: the failure under all nested creations;
* `Error.chain`: the messages of the causes, from the failure's own cause downwards.
-/

namespace InstanceRegistry

/-- A failure of a registry operation or of the caller's code. -/
inductive Error where
  /-- An argument is missing; `what` says which. -/
  | emptyText (what : String)
  /-- Another object is bound to the name. -/
  | alreadyBound (name : Name)
  /-- The alias stands for `registered`, and may not change its target. -/
  | aliasConflict (key name registered : Name)
  /-- The name already leads to the alias. -/
  | circularAlias (key name : Name)
  /-- There is no such alias. -/
  | unknownAlias (key : Name)
  /-- The name is being created already. -/
  | inCreation (name : Name)
  /-- The registry is destroying its objects. -/
  | creationForbidden (name : Name)
  /-- The factory of the name failed. -/
  | creationFailed (name : Name) (cause : Error) (related : List Error)
  /-- A creation ended for a name that is not marked as being created. -/
  | notInCreation (name : Name)
  /-- A factory found a state in which it cannot produce the object. -/
  | illegalState (reason : String)
  /-- Nothing is bound to the name. -/
  | notFound (name : Name)
  /-- The object bound to the name has another type. -/
  | typeMismatch (name : Name) (expected : String)
  /-- The product of the name is not shared. -/
  | notShared (name : Name)
  /-- The caller's code failed. The causes are the texts of what the failure came from, the nearest
  first. -/
  | caller (reason : String) (causes : List String)
  /-- The caller's code failed with an error of this type, kept as the caller's own. -/
  | enclosed (inner : Error)

/-- The causes of a caller's failure that has one at most. -/
instance coeCauses : Coe (Option String) (List String) := ⟨Option.toList⟩

namespace Error

/-- The text of a failure. -/
def message : Error → String
  | emptyText what => "'" ++ what ++ "' must not be empty"
  | alreadyBound name =>
    "could not register object under name '" ++ name ++ "': there is already an object bound"
  | aliasConflict key name registered =>
    "cannot define alias '" ++ key ++ "' for name '" ++ name
      ++ "': it is already registered for name '" ++ registered ++ "'"
  | circularAlias key name =>
    "cannot register alias '" ++ key ++ "' for name '" ++ name ++ "': circular reference - '"
      ++ name ++ "' is a direct or indirect alias for '" ++ key ++ "' already"
  | unknownAlias key => "no alias '" ++ key ++ "' registered"
  | inCreation name =>
    "error creating singleton '" ++ name
      ++ "': requested singleton is currently in creation (unresolvable circular reference?)"
  | creationForbidden name =>
    "singleton creation of '" ++ name
      ++ "' not allowed while singletons of this registry are in destruction"
  | creationFailed name cause _ => "error creating singleton '" ++ name ++ "': " ++ cause.message
  | notInCreation name => "singleton '" ++ name ++ "' isn't currently in creation"
  | illegalState reason => "illegal state: " ++ reason
  | notFound name => "singleton not found in registry: '" ++ name ++ "'"
  | typeMismatch name expected =>
    "type mismatch in registry for '" ++ name ++ "': expected " ++ expected
  | notShared name => "factory object '" ++ name ++ "' does not produce a shared instance"
  | caller reason _ => reason
  | enclosed inner => inner.message

/-- The errors reported while a creation failed; no other failure has any. -/
def related : Error → List Error
  | creationFailed _ _ related => related
  | _ => []

/-- The failure under all nested creations. An enclosed error is a cause of its own. -/
def rootCause : Error → Error
  | creationFailed _ cause _ => cause.rootCause
  | error => error

/-- The messages of the causes, the nearest first. An enclosed error is seen through. -/
def chain : Error → List String
  | creationFailed _ cause _ => cause.message :: cause.chain
  | caller _ causes => causes
  | enclosed inner => inner.chain
  | _ => []

end Error

end InstanceRegistry
