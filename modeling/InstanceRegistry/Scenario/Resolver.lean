import InstanceRegistry.NameMap.Basic

/-!
Resolvers of aliases that a session can describe: a table of texts, and a rule for all others.

* `Rule`, `Rule.apply`: the rules;
* `withoutPlaceholder`: a text without the marks of a placeholder around it;
* `Resolver`, `Resolver.apply`: a table and a rule.
-/

namespace InstanceRegistry.Scenario

/-- The text without any opening marks at its start. -/
def dropOpenings : List Char → List Char
  | '$' :: '\x7b' :: rest => dropOpenings rest
  | text => text

/-- The text without any closing marks at its end. -/
def dropClosings (text : List Char) : List Char :=
  (text.reverse.dropWhile (· = '\x7d')).reverse

/-- The text without the marks of a placeholder: a dollar sign and a brace at its start, a brace at
its end, each any number of times. -/
def withoutPlaceholder (text : String) : String :=
  String.ofList (dropClosings (dropOpenings text.toList))

/-- What becomes of the texts that a table does not list. -/
inductive Rule where
  /-- They stay as they are. -/
  | same
  /-- They resolve to nothing. -/
  | none
  /-- They resolve to the empty text. -/
  | empty
  /-- They get the letter x before them. -/
  | marked
  /-- They lose the marks of a placeholder. -/
  | bare
  deriving DecidableEq

/-- What a rule makes of a text. -/
def Rule.apply : Rule → String → Option String
  | same, text => some text
  | none, _ => Option.none
  | empty, _ => some ""
  | marked, text => some ("x" ++ text)
  | bare, text => some (withoutPlaceholder text)

/-- A table of texts and a rule for all others. -/
structure Resolver where
  table : NameMap (Option Name) := ∅
  rule : Rule

/-- What a resolver makes of a text. -/
def Resolver.apply (resolver : Resolver) (text : Name) : Option Name :=
  match resolver.table.get? text with
  | some answer => answer
  | none => resolver.rule.apply text

end InstanceRegistry.Scenario
