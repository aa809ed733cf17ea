/-
The text of JSON values, compact or over several lines.

Strings escape the quote, the backslash and the control characters below
U+0020, the common ones by letter and the rest by number; nothing else is
escaped.
-/
import Courseware.Json.Basic

namespace Courseware.Json

/-- A character inside a quoted string. -/
def escape (c : Char) : List Char :=
  match c with
  | '"' => ['\\', '"']
  | '\\' => ['\\', '\\']
  | '\n' => ['\\', 'n']
  | '\r' => ['\\', 'r']
  | '\t' => ['\\', 't']
  | '\x08' => ['\\', 'b']
  | '\x0c' => ['\\', 'f']
  | c =>
    if c.toNat < 0x20 then
      ['\\', 'u', '0', '0', Nat.digitChar (c.toNat / 16), Nat.digitChar (c.toNat % 16)]
    else [c]

/-- A string between quotes. -/
def quote (s : String) : String := "\"" ++ String.ofList (s.toList.flatMap escape) ++ "\""

/-- The text of a value that holds no others. -/
def scalar : Json → String
  | .null => "null"
  | .bool b => if b then "true" else "false"
  | .int i => toString i
  | .float negative m => String.ofList (NumberStyle.json.signed negative m)
  | .str s => quote s
  | .arr _ => "[]"
  | .obj _ => "\x7b\x7d"

mutual

/-- The text of a value on one line, without spaces. -/
def compact : Json → String
  | .arr [] => "[]"
  | .arr (item :: items) => "[" ++ item.compact ++ compactItems items ++ "]"
  | .obj [] => "\x7b\x7d"
  | .obj ((key, value) :: entries) =>
    "\x7b" ++ quote key ++ ":" ++ value.compact ++ compactEntries entries ++ "\x7d"
  | value => value.scalar

/-- The items after the first. -/
def compactItems : List Json → String
  | [] => ""
  | item :: items => "," ++ item.compact ++ compactItems items

/-- The entries after the first. -/
def compactEntries : List (String × Json) → String
  | [] => ""
  | (key, value) :: entries => "," ++ quote key ++ ":" ++ value.compact ++ compactEntries entries

end

/-- A newline and the indentation of a depth. -/
def newline (depth : Nat) : String := "\n" ++ String.ofList (List.replicate (2 * depth) ' ')

mutual

/-- The text of a value over several lines, two spaces deeper at each level. -/
def pretty (depth : Nat) : Json → String
  | .arr [] => "[]"
  | .arr (item :: items) =>
    "[" ++ newline (depth + 1) ++ item.pretty (depth + 1) ++ prettyItems (depth + 1) items ++
      newline depth ++ "]"
  | .obj [] => "\x7b\x7d"
  | .obj ((key, value) :: entries) =>
    "\x7b" ++ newline (depth + 1) ++ quote key ++ ": " ++ value.pretty (depth + 1) ++
      prettyEntries (depth + 1) entries ++ newline depth ++ "\x7d"
  | value => value.scalar

/-- The items after the first. -/
def prettyItems (depth : Nat) : List Json → String
  | [] => ""
  | item :: items => "," ++ newline depth ++ item.pretty depth ++ prettyItems depth items

/-- The entries after the first. -/
def prettyEntries (depth : Nat) : List (String × Json) → String
  | [] => ""
  | (key, value) :: entries =>
    "," ++ newline depth ++ quote key ++ ": " ++ value.pretty depth ++ prettyEntries depth entries

end

end Courseware.Json
