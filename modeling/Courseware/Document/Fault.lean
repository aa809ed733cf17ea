/-
What can be wrong with the tokens of a document.

Most faults are that something is expected and something else, or the end, is
found. What is expected decides the code of the error and its hint.
-/
import Courseware.Text.Blank
import Courseware.Token.Basic

namespace Courseware

/-- What a document may go on with. -/
inductive Expected where
  | statement
  /-- The path after a directive. -/
  | path
  /-- The colon after the key of an entry. -/
  | colon (key : String)
  /-- What follows the key of an assignment. -/
  | assignment (key : String)
  /-- The end of a value over several lines. -/
  | closing
  | value
  /-- What follows an item of an array. -/
  | afterItem
  /-- The key of an entry. -/
  | objectKey
  /-- What follows an entry of an object. -/
  | afterEntry
  deriving DecidableEq, Repr

namespace Expected

/-- What is expected, in words. -/
def description : Expected → String
  | statement => "a statement"
  | path => "a path"
  | colon key => "':' after '" ++ key ++ "'"
  | assignment key => "'=' or '==' after '" ++ key ++ "'"
  | closing => "'==' closing the multi-line value"
  | value => "a value"
  | afterItem => "',' or ']'"
  | objectKey => "an object key"
  | afterEntry => "',' or '\x7d'"

/-- The code of the error that it is missing. -/
def code : Expected → Nat
  | statement => 205
  | path => 202
  | colon _ => 202
  | assignment _ => 208
  | closing => 209
  | value => 210
  | afterItem => 211
  | objectKey => 212
  | afterEntry => 213

/-- The hint of the error that it is missing. -/
def hint : Expected → Option String
  | statement => some "Statements are assignments, comments, @include or @extends"
  | _ => none

end Expected

/-- What keeps a list of tokens from being a document. -/
inductive SyntaxFault where
  /-- Something else is found, or the end of the document. -/
  | missing (expected : Expected) (found : Option String)
  /-- A directive that makes a value stands where a statement starts. -/
  | misplaced (directive : Directive)
  /-- The statements of another file stand where a value is. -/
  | inclusionAsValue
  deriving DecidableEq, Repr

namespace SyntaxFault

/-- The message, the hint and the code of a fault. -/
def detail : SyntaxFault → Detail
  | missing expected found =>
    let found := found.elim "end of input" fun lexeme => "'" ++ lexeme ++ "'"
    ⟨"Expected " ++ expected.description ++ ", found " ++ found, expected.hint, some expected.code⟩
  | misplaced directive =>
    ⟨directive.keyword ++ " is only valid on the right-hand side of '='",
      some "Write it as `key = @copyurl path`", some 204⟩
  | inclusionAsValue =>
    ⟨"@include cannot be used as a value",
      some "Use `@extends path` to bind another file's variables to a key", some 206⟩

/-- The error of a fault at a line. -/
def error (fault : SyntaxFault) (line : Nat) : Error := .syntactic line fault.detail

end SyntaxFault

/-- The error that a token stands where something else is expected. -/
def Expected.instead (expected : Expected) (t : Token) : Error :=
  (SyntaxFault.missing expected (some (Text.trimmed t.lexeme))).error t.line

/-- The error that the document ends where something is expected. -/
def Expected.atEnd (expected : Expected) (line : Nat) : Error :=
  (SyntaxFault.missing expected none).error line

end Courseware
