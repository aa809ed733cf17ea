/-
Documents: what the tokens of a file say.

A document is a list of statements, each an assignment, a comment, or a
directive about another file. The value of an assignment is a literal, which
can hold further values, or names something that is only known when the
document is evaluated: a component, a variable, a file.
-/
import Courseware.Dict
import Courseware.Number.Basic

namespace Courseware

/-- A value that holds no other values. -/
inductive Atom where
  | string (text : String)
  | number (value : Number)
  | boolean (value : Bool)
  /-- The name of a component. -/
  | component (selector : String)
  /-- The dotted name of a variable. -/
  | reference (name : String)
  /-- The variables of another file, as one dictionary. -/
  | dictionary (path : String)
  /-- The address of another file. -/
  | url (path : String)
  /-- The content of another file. -/
  | content (path : String)
  deriving DecidableEq

/-- A value as it is written, with the line it starts on. -/
inductive Value where
  | atom (line : Nat) (atom : Atom)
  | array (line : Nat) (items : List Value)
  | object (line : Nat) (entries : List (String × Value))

namespace Value

/-- The line a value starts on. -/
def line : Value → Nat
  | .atom line _ => line
  | .array line _ => line
  | .object line _ => line

/-- Whether the value needs a file to be resolved. -/
def isDirective : Value → Bool
  | .atom _ (.dictionary _) | .atom _ (.url _) | .atom _ (.content _) => true
  | _ => false

/-- The entries of an object. -/
def entries? : Value → Option (Dict Value)
  | .object _ entries => some entries
  | _ => none

end Value

/-- A statement of a document. -/
inductive Statement where
  | assignment (key : String) (value : Value)
  | comment (text : String)
  /-- The statements of another file, in place. -/
  | inclusion (path : String)
  /-- The variables of another file, inherited. -/
  | extension (path : String)

/-- A statement with the line it starts on and the file it stands in. -/
structure Node where
  statement : Statement
  line : Nat
  /-- Empty until the document is evaluated. -/
  origin : String

/-- Something that a document is allowed to do, and that deserves a warning. -/
structure Note where
  line : Nat
  message : String
  deriving DecidableEq, Repr

/-- The statements of a document in order, and what they deserve warnings for. -/
structure Document where
  nodes : List Node
  notes : List Note

end Courseware
