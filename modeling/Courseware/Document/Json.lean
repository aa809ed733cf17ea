/-
Documents as JSON, the way consumers of compiled resources expect them.

Each node is an object of its type, what the type holds, its line and its
origin. A number is always a floating-point value here.
-/
import Courseware.Document.Basic
import Courseware.Json.Basic

namespace Courseware

/-- The type of an atom, and what it holds. -/
def Atom.toJson : Atom → String × Json
  | .string text => ("String", .str text)
  | .number n => ("Number", .ofNumber n)
  | .boolean b => ("Boolean", .bool b)
  | .component selector => ("Component", .str selector)
  | .reference name => ("Reference", .str name)
  | .dictionary path => ("DictExtends", .str path)
  | .url path => ("FileUrl", .str path)
  | .content path => ("FileContent", .str path)

namespace Value

/-- A value of some type at a line. -/
def typed (type : String) (content : Json) (line : Nat) : Json :=
  .obj [("type", .str type), ("value", content), ("lineno", .int line)]

mutual

/-- A value as JSON. -/
def toJson : Value → Json
  | .atom line a => typed a.toJson.1 a.toJson.2 line
  | .array line items => typed "Array" (.arr (itemsToJson items)) line
  | .object line entries => typed "Object" (.obj (entriesToJson entries)) line

/-- The items of an array as JSON. -/
def itemsToJson : List Value → List Json
  | [] => []
  | item :: items => item.toJson :: itemsToJson items

/-- The entries of an object as JSON. -/
def entriesToJson : List (String × Value) → List (String × Json)
  | [] => []
  | (key, value) :: entries => (key, value.toJson) :: entriesToJson entries

end

end Value

/-- What a statement holds, with its type first. -/
def Statement.toJson : Statement → Dict Json
  | .assignment key value =>
    [("type", .str "Assignment"), ("key", .str key), ("value", value.toJson)]
  | .comment text => [("type", .str "Comment"), ("text", .str text)]
  | .inclusion path => [("type", .str "Include"), ("path", .str path)]
  | .extension path => [("type", .str "Extends"), ("path", .str path)]

/-- A node as JSON. -/
def Node.toJson (n : Node) : Json :=
  .obj (n.statement.toJson ++ [("lineno", .int n.line), ("origin", .str n.origin)])

end Courseware
