/-
Compiled resources.

A resource holds the variables of a document and of the documents it inherits
from, the variables that it assigns itself, the files that were pulled in, its
statements, and the diagnostics of everything that was evaluated for it.
-/
import Courseware.Document.Basic
import Courseware.Error
import Courseware.Library.Basic
import Courseware.Variables

namespace Courseware

/-- A document that was pulled in. -/
structure Dependency where
  /-- The key that its variables are bound to, if they are bound to one. -/
  boundTo : Option String
  /-- The line of the directive. -/
  line : Nat
  content : String
  path : String
  deriving DecidableEq, Repr

/-- What compiling a document gives. -/
structure Resource where
  file : Descriptor
  /-- Every variable, those inherited from other documents included. -/
  vars : Variables
  /-- The variables that the document assigns, included documents counting as part of it. -/
  own : Variables
  dependencies : List Dependency
  nodes : List Node
  errors : List Diagnostic
  warnings : List Diagnostic

namespace Resource

/-- The resource of a document of which nothing has been evaluated. -/
def empty (file : Descriptor) : Resource := ⟨file, [], [], [], [], [], []⟩

/-- Whether an error was recorded. -/
def hasErrors (r : Resource) : Bool := ¬ r.errors.isEmpty

/-- The variable of a dotted name. -/
def get? (r : Resource) (name : String) : Option Json := r.vars.lookup name

/-- The resource with an error recorded. -/
def withError (r : Resource) (d : Diagnostic) : Resource := { r with errors := r.errors ++ [d] }

/-- The resource with a warning recorded. -/
def withWarning (r : Resource) (d : Diagnostic) : Resource :=
  { r with warnings := r.warnings ++ [d] }

/-- The resource with a dependency recorded. -/
def withDependency (r : Resource) (d : Dependency) : Resource :=
  { r with dependencies := r.dependencies ++ [d] }

/-- The resource with everything recorded that was recorded for a nested one. -/
def absorb (r nested : Resource) : Resource :=
  { r with
    errors := r.errors ++ nested.errors
    warnings := r.warnings ++ nested.warnings
    dependencies := r.dependencies ++ nested.dependencies }

/-- The resource with the variables of a parent, except where it assigns the same key itself. -/
def inherit (r : Resource) (parent : Variables) : Resource :=
  { r with
    vars := parent.foldl (fun vars (key, value) =>
      if Dict.hasKey r.own key then vars else Dict.insert vars key value) r.vars }

/-- **The resource after an assignment**, which sets a name among all variables and among its own,
and what blocked it, if something did. -/
def assign (r : Resource) (name : String) (value : Json) : Resource × Option Blocked :=
  match r.vars.assign name value with
  | .error blocked => (r, some blocked)
  | .ok vars =>
    match r.own.assign name value with
    | .error blocked => ({ r with vars }, some blocked)
    | .ok own => ({ r with vars, own }, none)

end Resource

end Courseware
