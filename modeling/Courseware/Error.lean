/-
Errors that end a compilation, and diagnostics that do not.

An `Error` is the outcome of a file that cannot be read, has no tokens or does
not parse, of a variable asked for in the wrong shape, and of nesting that is
refused. A `Diagnostic` is an error or a warning recorded in a compiled
resource at a line of a file.
-/

namespace Courseware

/-- What an error tells about its cause. -/
structure Detail where
  message : String
  hint : Option String
  code : Option Nat
  deriving DecidableEq, Repr

namespace Detail

/-- A message with a code and without a hint. -/
def coded (message : String) (code : Nat) : Detail := ⟨message, none, some code⟩

/-- What follows the message where an error is shown. -/
def suffix (d : Detail) : String :=
  (d.hint.elim "" fun hint => " Hint: " ++ hint) ++
    d.code.elim "" fun code => " Code: " ++ toString code

end Detail

/-- An error that ends the compilation of a file, or an access to a compiled one. -/
inductive Error where
  /-- The text of a document has no token at a line. -/
  | lexical (line : Nat) (detail : Detail)
  /-- The tokens of a document make no statement at a line. -/
  | syntactic (line : Nat) (detail : Detail)
  /-- A file cannot be found or read. -/
  | file (path : String) (detail : Detail)
  /-- A variable is missing or has another shape than asked for. -/
  | shape (key : String) (detail : Detail)
  /-- A file may not be opened inside the ones that are open. -/
  | nesting (path : String) (message : String)
  deriving DecidableEq, Repr

namespace Error

/-- The error with another hint; an error about nesting has none. -/
def withHint (hint : String) : Error → Error
  | .lexical line d => .lexical line { d with hint := some hint }
  | .syntactic line d => .syntactic line { d with hint := some hint }
  | .file path d => .file path { d with hint := some hint }
  | .shape key d => .shape key { d with hint := some hint }
  | .nesting path message => .nesting path message

/-- The line of the document the error points at, if it points at one. -/
def line? : Error → Option Nat
  | .lexical line _ | .syntactic line _ => some line
  | _ => none

/-- The code of the error, if it has one. -/
def code? : Error → Option Nat
  | .lexical _ d | .syntactic _ d | .file _ d | .shape _ d => d.code
  | .nesting _ _ => none

/-- Whether the error lies in the text of a document. -/
def isSyntactic (e : Error) : Bool := e.line?.isSome

/-- The error as it is shown. -/
def display : Error → String
  | .lexical line d =>
    "[PL] Lexical Error at line " ++ toString line ++ ": " ++ d.message ++ d.suffix
  | .syntactic line d =>
    "[PL] Syntax Error at line " ++ toString line ++ ": " ++ d.message ++ d.suffix
  | .file path d => "[PL] File Error '" ++ path ++ "': " ++ d.message ++ d.suffix
  | .shape key d => "[PL] Type Error for '" ++ key ++ "': " ++ d.message ++ d.suffix
  | .nesting path message => "[PL] Compile Error in '" ++ path ++ "': " ++ message

end Error

/-- An error or a warning at a line of a file. -/
structure Diagnostic where
  line : Nat
  path : String
  description : String
  deriving DecidableEq, Repr

namespace Diagnostic

/-- **The diagnostic for an error of a nested file**: at the line of the nested file that the
error points at, or else at the directive in the file that opened it. -/
def ofNested (e : Error) (nested : String) (line : Nat) (current : String) : Diagnostic :=
  match e.line? with
  | some nestedLine => ⟨nestedLine, nested, e.display⟩
  | none => ⟨line, current, e.display⟩

/-- The diagnostic as it is shown. -/
def display (d : Diagnostic) : String :=
  d.path ++ ":" ++ toString d.line ++ ": " ++ d.description

end Diagnostic

end Courseware
