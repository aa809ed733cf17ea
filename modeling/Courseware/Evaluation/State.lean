/-
The state of an evaluation.

Evaluating a document builds a resource. Beside it the state holds which file
the statements come from, which files are open, which were included before,
which key is being assigned, and the journal.
-/
import Courseware.Evaluation.Journal
import Courseware.Options.Basic
import Courseware.Path
import Courseware.Resource.Basic

namespace Courseware

/-- What does not change while a document is evaluated. -/
structure Context where
  library : Library
  options : Options

/-- A document that is being evaluated. -/
structure Evaluation where
  /-- What has been built so far. -/
  resource : Resource
  /-- The file whose statements are being evaluated. -/
  current : String
  /-- The files that are open, outermost first. -/
  stack : List String
  /-- The files that were included. -/
  included : List String
  /-- The key whose value is being resolved. -/
  assigning : Option String
  journal : Journal

namespace Evaluation

/-- The start of the evaluation of a file, inside those that are open. -/
def start (file : Descriptor) (stack : List String) (journal : Journal) : Evaluation :=
  ⟨.empty file, file.path, stack ++ [file.path], [], none, journal⟩

/-- The state after an error. -/
def withError (s : Evaluation) (d : Diagnostic) : Evaluation :=
  { s with resource := s.resource.withError d }

/-- The state after a warning. -/
def withWarning (s : Evaluation) (d : Diagnostic) : Evaluation :=
  { s with resource := s.resource.withWarning d }

/-- The state after an event. -/
def record (s : Evaluation) (event : Event) : Evaluation :=
  { s with journal := s.journal.record s.stack event }

/-- The diagnostic of a line of the current file. -/
def here (s : Evaluation) (line : Nat) (description : String) : Diagnostic :=
  ⟨line, s.current, description⟩

/-- What the notes of a document deserve, at the lines of a file. -/
def withNotes (s : Evaluation) (path : String) (notes : List Note) : Evaluation :=
  notes.foldl (fun s note => s.withWarning ⟨note.line, path, note.message⟩) s

/-- The file at a path. -/
def locate (ctx : Context) (s : Evaluation) (path : String) :
    Except Error Descriptor × Evaluation :=
  let (file, journal) := ctx.library.askLocate s.stack path s.resource.file.version s.journal
  (file, { s with journal })

/-- The content of a located file. -/
def content (ctx : Context) (s : Evaluation) (file : Descriptor) :
    Except Error ByteArray × Evaluation :=
  let (bytes, journal) := ctx.library.askContent s.stack file s.journal
  (bytes, { s with journal })

/-- The document at a path, with its text. -/
def readText (ctx : Context) (s : Evaluation) (path : String) :
    Except Error (Descriptor × String) × Evaluation :=
  let (found, journal) := ctx.library.askText s.stack path s.resource.file.version s.journal
  (found, { s with journal })

/-- Why a file may not be opened inside the ones that are open. -/
inductive NestingFault where
  /-- It is open already. -/
  | circular (chain : List String)
  | tooDeep (maxDepth : Nat)
  deriving DecidableEq, Repr

/-- The fault in words. -/
def NestingFault.message : NestingFault → String
  | circular chain => "Circular reference: " ++ " -> ".intercalate chain
  | tooDeep maxDepth => "Nesting exceeds the maximum depth of " ++ toString maxDepth

/-- Whether a file may be opened, and with it what goes one level `deeper`. There is nothing deeper
where the depth is used up. -/
def enter {α : Type} (ctx : Context) (deeper : Option α) (s : Evaluation) (target : String) :
    Except Error α × Evaluation :=
  let refuse (fault : NestingFault) : Except Error α := .error (.nesting target fault.message)
  let outcome :=
    if target ∈ s.stack then refuse (.circular (s.stack ++ [target]))
    else
      match deeper with
      | some deeper => .ok deeper
      | none => refuse (.tooDeep ctx.options.maxDepth)
  (outcome, s.record (.nest target))

end Evaluation

end Courseware
