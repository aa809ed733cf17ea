/-
Lines of a text.

A line ends before its newline. `newlines` counts the newlines of a text, so
a position has line number one more than the newlines before it.
-/

namespace Courseware.Text

/-- How many newlines a text has. -/
def newlines (cs : List Char) : Nat := cs.count '\n'

@[simp] theorem newlines_nil : newlines [] = 0 := rfl

@[simp] theorem newlines_append (as bs : List Char) :
    newlines (as ++ bs) = newlines as + newlines bs := List.count_append

/-- The text up to its first newline, without it. -/
def firstLine (cs : List Char) : List Char := cs.takeWhile (· ≠ '\n')

/-- The text up to its first newline, with it if there is one. -/
def firstLineWithEnd (cs : List Char) : List Char :=
  match cs.dropWhile (· ≠ '\n') with
  | [] => firstLine cs
  | c :: _ => firstLine cs ++ [c]

/-- Whether `cs` begins with `start`. -/
def startsWith (cs start : List Char) : Bool := start.isPrefixOf cs

end Courseware.Text
