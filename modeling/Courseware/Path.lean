/-
Paths of files in a library.

A path is a string. A normal one is a slash and the segments after it with
slashes between them, none of them empty, `.` or `..`. A path below the home
directory starts with `~/` and is not normalised here: the library decides
what it means.

`normalize` brings any path to its normal form and `resolve` reads a path
written in a file, relative to that file.
-/
import Courseware.Text.Blank
import Courseware.Text.Line
import Courseware.Text.Split

namespace Courseware.Path

/-- The segments so far after one more: an empty one and `.` stay, `..` goes up and never above
the root. -/
def step (segments : List (List Char)) (segment : List Char) : List (List Char) :=
  if segment = [] ∨ segment = ['.'] then segments
  else if segment = ['.', '.'] then segments.dropLast
  else segments ++ [segment]

/-- The segments a path leads through from the root. -/
def segments (path : List Char) : List (List Char) := (Text.split '/' path).foldl step []

/-- The normal path of a list of segments. -/
def ofSegments (segments : List (List Char)) : List Char := '/' :: Text.join ['/'] segments

/-- `normalize` on characters. -/
def normalizeChars (path : List Char) : List Char := ofSegments (segments path)

/-- **The normal form of a path**: absolute, with no empty segment, no `.` and no `..`. -/
def normalize (path : String) : String := String.ofList (normalizeChars path.toList)

/-- `directory` on characters. -/
def directoryChars (path : List Char) : List Char :=
  match ((path.reverse.dropWhile (· ≠ '/')).drop 1).reverse with
  | [] => ['/']
  | parent => parent

/-- The part of a path before its last slash, the root if there is nothing before it. -/
def directory (path : String) : String := String.ofList (directoryChars path.toList)

/-- Whether a path lies below the home directory. -/
def isHome (path : List Char) : Bool := Text.startsWith path ['~', '/']

/-- A relative path read from the file at `current`; a tilde in front stays in front. -/
def relative : (current path : List Char) → List Char
  | '~' :: current, path => '~' :: relative current path
  | current, path =>
    let base := ((directoryChars current).reverse.dropWhile (· = '/')).reverse
    normalizeChars (base ++ '/' :: path)

/-- `resolve` on characters. -/
def resolveChars (current raw : List Char) : List Char :=
  let path := Text.trim raw
  if isHome path then path
  else if path.head? = some '/' then normalizeChars path
  else relative current path

/-- **The file that a path written in `current` names**: a path below the home directory as it
stands, a rooted one normalised, any other one relative to the directory of `current`. -/
def resolve (current raw : String) : String :=
  String.ofList (resolveChars current.toList raw.toList)

end Courseware.Path
