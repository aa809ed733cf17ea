/-
JSON values.

Objects are ordered dictionaries. A number is an integer or a finite
floating-point number: JSON has no infinities, so a number that is not finite
becomes `null`.
-/
import Courseware.Dict
import Courseware.Number.Text

namespace Courseware

/-- A JSON value. -/
inductive Json where
  | null
  | bool (b : Bool)
  | int (i : Int)
  | float (negative : Bool) (magnitude : Magnitude)
  | str (s : String)
  | arr (items : List Json)
  | obj (entries : List (String × Json))

namespace Json

instance : Inhabited Json := ⟨.null⟩

/-- A number as a floating-point value, `null` if it is not finite. -/
def ofNumber : Number → Json
  | .finite negative m => .float negative m
  | _ => .null

/-- A string or `null`. -/
def ofOption : Option String → Json
  | some s => .str s
  | none => .null

/-- The entries of an object. -/
def entries? : Json → Option (Dict Json)
  | .obj entries => some entries
  | _ => none

end Json

namespace Number

/-- Whole numbers below this bound are integers in a compiled resource. -/
def integerBound : Nat := 9000000000000000

/-- **A number as a compiled resource holds it**: a whole number below the bound is an integer,
any other finite one a floating-point value. -/
def toJson : Number → Json
  | .finite negative m =>
    if m.isIntegral ∧ m.floor < integerBound then
      .int (if negative then -(m.floor : Int) else m.floor)
    else .float negative m
  | _ => .null

end Number

end Courseware
