/-
How far a token reaches.

Each function here takes the text that is left and gives the length of the
token of one kind at its front, zero if there is none. A token is then cut
off by that length, so no function below can lose or reorder a character.
-/
import Courseware.Text.Blank
import Courseware.Text.Line
import Courseware.Token.Basic

namespace Courseware.Token

/-- An ASCII letter or an underscore. -/
def isNameStart (c : Char) : Bool := c.isAlpha || c = '_'

/-- An ASCII letter, a digit or an underscore. -/
def isNameChar (c : Char) : Bool := c.isAlphanum || c = '_'

/-- A character that may stand after the first one of a component's name. -/
def isSelectorChar (c : Char) : Bool := isNameChar c || c = '-'

/-- What separates two groups of digits. -/
def isDigitSeparator (c : Char) : Bool := c = '_' || c = '.'

/-- The rest of a number inside a group of digits: digits, and further groups after one separator
each. -/
def numberTail : List Char → Nat
  | [] => 0
  | c :: cs =>
    if c.isDigit then numberTail cs + 1
    else if isDigitSeparator c then
      match cs with
      | d :: ds => if d.isDigit then numberTail ds + 2 else 0
      | [] => 0
    else 0

/-- A number: a sign or none, and groups of digits. -/
def numberLength : List Char → Nat
  | '+' :: cs => numberTail cs + 1
  | '-' :: cs => numberTail cs + 1
  | cs => numberTail cs

/-- The rest of a dotted name inside a segment, which is a word or else an index: its characters,
and further segments after a dot each. -/
def nameTail (inWord : Bool) : List Char → Nat
  | [] => 0
  | c :: cs =>
    if (if inWord then isNameChar c else c.isDigit) then nameTail inWord cs + 1
    else if c = '.' then
      match cs with
      | d :: ds =>
        if isNameStart d then nameTail true ds + 2
        else if d.isDigit then nameTail false ds + 2
        else 0
      | [] => 0
    else 0

/-- A dotted name, whose first segment is a word. -/
def nameLength : List Char → Nat
  | c :: cs => if isNameStart c then nameTail true cs + 1 else 0
  | [] => 0

/-- The name of a component, after what it starts with. -/
def selectorLength : List Char → Nat
  | c :: cs => if c.isAlphanum then (cs.takeWhile isSelectorChar).length + 1 else 0
  | [] => 0

/-- An `@` and the letters after it. -/
def directiveLength (cs : List Char) : Nat := ((cs.drop 1).takeWhile Char.isAlpha).length + 1

/-- The text of a block comment after its opening, up to and with its end. -/
def commentTail : List Char → Option Nat
  | '*' :: '/' :: _ => some 2
  | _ :: cs => (commentTail cs).map (· + 1)
  | [] => none

/-- Whether a comment starts here. -/
def startsComment : List Char → Bool
  | '#' :: _ => true
  | '/' :: '/' :: _ => true
  | '/' :: '*' :: _ => true
  | _ => false

/-- What ends a path besides the end of its line. -/
def endsPath (c : Char) : Bool := c = ',' || c = ']' || c = '}'

/-- A path: up to the end of the line, a comma, a closing bracket, or a comment after a blank. -/
def pathLength (afterBlank : Bool) : List Char → Nat
  | [] => 0
  | c :: cs =>
    if c = '\n' || endsPath c || (afterBlank && startsComment (c :: cs)) then 0
    else pathLength (c = ' ' || c = '\t') cs + 1

/-- The character after a backslash in a string. -/
def unescape : Char → Char
  | 'n' => '\n'
  | 't' => '\t'
  | 'r' => '\r'
  | c => c

/-- The content of a string after its opening quote, and how far it reaches with the closing
one. -/
def stringTail (quote : Char) : List Char → Except LexicalFault (List Char × Nat)
  | [] => .error (.unclosedString quote)
  | c :: cs =>
    if c = quote then .ok ([], 1)
    else if c = '\\' then
      match cs with
      | [] => .error .trailingBackslash
      | d :: ds => (stringTail quote ds).map fun (content, n) => (unescape d :: content, n + 2)
    else (stringTail quote cs).map fun (content, n) => (c :: content, n + 1)

/-- What a dotted name is: a truth value or a name. The spelling `False` is a name. -/
def nameKind (name : List Char) : TokenKind :=
  let word := name.map Char.toLower
  if word = "true".toList then .boolean true
  else if word = "false".toList ∧ name ≠ "False".toList then .boolean false
  else .name (String.ofList name)

end Courseware.Token
