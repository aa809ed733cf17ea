/-
Variables: an ordered dictionary of JSON values, addressed by dotted names.

A name `a.b.c` leads from the variable `a` through the entries of objects and
the items of arrays. Looking up prefers a variable that has the whole name as
its key. Assigning makes the objects on the way that are not there, and fails
if something on the way is there and is not an object; nothing has changed
then.
-/
import Courseware.Json.Basic
import Courseware.Text.Split

namespace Courseware

/-- Variables in the order they were first assigned. -/
abbrev Variables := Dict Json

/-- An assignment that meets a value which is not an object. -/
structure Blocked where
  /-- The name that was to be assigned. -/
  name : String
  /-- The segments that lead to the value. -/
  way : List String
  deriving DecidableEq, Repr

/-- The fault in words. -/
def Blocked.message (b : Blocked) : String :=
  "Cannot assign '" ++ b.name ++ "': '" ++ ".".intercalate b.way ++ "' is not a dictionary"

namespace Variables

/-- The segments of a dotted name. -/
def segments (name : String) : List String := Text.parts '.' name

/-- The index a segment stands for: digits, with a plus in front or not, below `2 ^ 64`. -/
def index? (segment : String) : Option Nat :=
  let digits :=
    match segment.toList with
    | '+' :: digits => digits
    | digits => digits
  if digits ≠ [] ∧ digits.all Char.isDigit ∧ Number.digitsValue digits < Nat.pow 2 64 then
    some (Number.digitsValue digits)
  else none

/-- The value that some segments lead to from another one. -/
def descend : List String → Json → Option Json
  | [], value => some value
  | segment :: rest, .obj entries => (Dict.get? entries segment).bind (descend rest)
  | segment :: rest, .arr items => (index? segment).bind fun i => items[i]?.bind (descend rest)
  | _ :: _, _ => none

/-- **The value of a dotted name**: that of the variable with the whole name, or else the one its
segments lead to. -/
def lookup (vars : Variables) (name : String) : Option Json :=
  match Dict.get? vars name with
  | some value => some value
  | none =>
    match segments name with
    | [] => none
    | first :: rest => (Dict.get? vars first).bind (descend rest)

/-- The entries after the value at some segments is set, or the segments that lead to a value which
is not an object. -/
def put (value : Json) : List String → Dict Json → Except (List String) (Dict Json)
  | [], entries => .ok entries
  | [key], entries => .ok (Dict.insert entries key value)
  | key :: next :: rest, entries =>
    match Dict.get? entries key with
    | none => (put value (next :: rest) []).map fun inner => Dict.insert entries key (.obj inner)
    | some (.obj inner) =>
      match put value (next :: rest) inner with
      | .ok inner => .ok (Dict.insert entries key (.obj inner))
      | .error way => .error (key :: way)
    | some _ => .error [key]

/-- **The variables after an assignment to a dotted name**, unless it is blocked. -/
def assign (vars : Variables) (name : String) (value : Json) : Except Blocked Variables :=
  match put value (segments name) vars with
  | .ok vars => .ok vars
  | .error way => .error ⟨name, way⟩

end Variables

end Courseware
