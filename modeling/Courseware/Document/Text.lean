/-
The text of a document's statements.

Writing is what parsing undoes. A value is written on one line, with a comma
and a space between items and a colon and a space after keys; an assigned
string with a newline in it is written over several lines instead, between two
lines `==`. One newline at the end of such a string is the one before the
closing line and is not written twice.
-/
import Courseware.Document.Basic
import Courseware.Number.Text
import Courseware.Text.Split

namespace Courseware

/-- A character inside a quoted string. -/
def Atom.escape : Char → List Char
  | '"' => ['\\', '"']
  | '\\' => ['\\', '\\']
  | '\n' => ['\\', 'n']
  | '\t' => ['\\', 't']
  | '\r' => ['\\', 'r']
  | c => [c]

/-- A string between double quotes. -/
def Atom.quote (s : String) : List Char := '"' :: s.toList.flatMap escape ++ ['"']

/-- A directive and its path. -/
def Atom.directive (word path : String) : List Char := word.toList ++ ' ' :: path.toList

/-- The text of an atom. -/
def Atom.written : Atom → List Char
  | .string text => quote text
  | .number n => n.written
  | .boolean b => if b then "true".toList else "false".toList
  | .component selector => selector.toList
  | .reference name => name.toList
  | .dictionary path => directive "@extends" path
  | .url path => directive "@copyurl" path
  | .content path => directive "@copycontent" path

namespace Value

mutual

/-- The text of a value. -/
def written : Value → List Char
  | .atom _ a => a.written
  | .array _ items => '[' :: Text.join [',', ' '] (writtenItems items) ++ [']']
  | .object _ entries => '\x7b' :: Text.join [',', ' '] (writtenEntries entries) ++ ['\x7d']

/-- The texts of the items of an array. -/
def writtenItems : List Value → List (List Char)
  | [] => []
  | item :: items => item.written :: writtenItems items

/-- The texts of the entries of an object. -/
def writtenEntries : List (String × Value) → List (List Char)
  | [] => []
  | (key, value) :: entries => (key.toList ++ ':' :: ' ' :: value.written) :: writtenEntries entries

end

/-- The text of a value. -/
def text (v : Value) : String := String.ofList v.written

end Value

namespace Statement

/-- A string over several lines, between the lines that open and close it. -/
def writtenLines (key : String) (body : List Char) : List Char :=
  let body := if body.getLast? = some '\n' then body.dropLast else body
  key.toList ++ " ==\n".toList ++ body ++ "\n==".toList

/-- A key and its value on one line. -/
def writtenInline (key : String) (v : Value) : List Char :=
  key.toList ++ " = ".toList ++ v.written

/-- The text of a statement. -/
def written : Statement → List Char
  | .assignment key (.atom line (.string s)) =>
    if '\n' ∈ s.toList then writtenLines key s.toList
    else writtenInline key (.atom line (.string s))
  | .assignment key v => writtenInline key v
  | .comment text => text.toList
  | .inclusion path => Atom.directive "@include" path
  | .extension path => Atom.directive "@extends" path

end Statement

/-- The text of a node. -/
def Node.text (n : Node) : String := String.ofList n.statement.written

/-- **The text of a list of nodes**, one statement after another, with a newline at the end if
there is any text. -/
def Document.source (nodes : List Node) : String :=
  let text := Text.join ['\n'] (nodes.map fun n => n.statement.written)
  String.ofList (if text = [] then [] else text ++ ['\n'])

end Courseware
