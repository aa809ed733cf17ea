/-
The journal of a compilation.

It lists in order what the compilation asked of its library and which files it
tried to open inside others, each with the files that were open then. It also
counts the components that were resolved, each of which has an identifier of
its own.
-/
import Courseware.Identifier
import Courseware.Library.Basic

namespace Courseware

/-- A question to a library. -/
inductive Call where
  /-- Where the file at a path and a version is. -/
  | locate (path version : String)
  /-- The content of a located file. -/
  | content (file : Descriptor)
  /-- The address of a located file, under what addresses start with. -/
  | url (file : Descriptor) (start : String)
  deriving DecidableEq, Repr

/-- Something that happens during a compilation. -/
inductive Event where
  | call (call : Call)
  /-- A directive that would open the file at a path. -/
  | nest (target : String)
  deriving DecidableEq, Repr

/-- What happened during a compilation. -/
structure Journal where
  /-- Each event with the files that were open, outermost first. -/
  events : List (List String × Event)
  /-- The number that the next identifier carries. -/
  nextId : Nat

namespace Journal

/-- A journal without events. -/
def empty (firstId : Nat) : Journal := ⟨[], firstId⟩

/-- The journal after an event. -/
def record (j : Journal) (stack : List String) (event : Event) : Journal :=
  { j with events := j.events ++ [(stack, event)] }

/-- The questions to the library in order. -/
def calls (j : Journal) : List Call :=
  j.events.filterMap fun
    | (_, .call call) => some call
    | (_, .nest _) => none

end Journal

namespace Library

/-- The file at a path and a version, asked for while the files of `stack` are open. -/
def askLocate (library : Library) (stack : List String) (path version : String) (j : Journal) :
    Except Error Descriptor × Journal :=
  (library.locate path version, j.record stack (.call (.locate path version)))

/-- The content of a located file, asked for while the files of `stack` are open. -/
def askContent (library : Library) (stack : List String) (file : Descriptor) (j : Journal) :
    Except Error ByteArray × Journal :=
  (library.content file, j.record stack (.call (.content file)))

/-- The document at a path and a version, with its text. -/
def askText (library : Library) (stack : List String) (path version : String) (j : Journal) :
    Except Error (Descriptor × String) × Journal :=
  match library.askLocate stack path version j with
  | (.error e, j) => (.error e, j)
  | (.ok file, j) =>
    match library.askContent stack file j with
    | (.error e, j) => (.error e, j)
    | (.ok bytes, j) => ((decode file bytes).map fun text => (file, text), j)

end Library

end Courseware
