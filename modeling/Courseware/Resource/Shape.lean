/-
Access to the variables of a resource by shape.

A `Shape` is what a caller expects a variable to be. `read` gives the value in
that shape or tells what is there instead; a list is judged by the first item
that does not fit. An integer serves as a number, never the other way round.
-/
import Courseware.Json.Text
import Courseware.Resource.Basic
import Courseware.Text.Quotation

namespace Courseware

/-- What a variable is expected to be. -/
inductive Shape where
  /-- An integer of 8 bits, without a sign. -/
  | byte
  /-- An integer of 64 bits, with a sign. -/
  | integer
  | number
  | boolean
  | string
  | integers
  | strings
  /-- A truth value or `null`. -/
  | optionalBoolean
  deriving DecidableEq, Repr

namespace Shape

/-- A JSON value as a message names it. -/
def found : Json → String
  | .null => "null"
  | .bool b => "boolean `" ++ (if b then "true" else "false") ++ "`"
  | .int i => "integer `" ++ toString i ++ "`"
  | .float negative m => "floating point `" ++ (Json.float negative m).scalar ++ "`"
  | .str s => "string " ++ Text.quotation s
  | .arr _ => "sequence"
  | .obj _ => "map"

/-- The message that a value is of another kind than expected. -/
def wrongType (value : Json) (expected : String) : String :=
  "invalid type: " ++ found value ++ ", expected " ++ expected

/-- An integer from `low` to `high`. -/
def readInt (expected : String) (low high : Int) : Json → Except String Json
  | .int i =>
    if low ≤ i ∧ i ≤ high then .ok (.int i)
    else .error ("invalid value: " ++ found (.int i) ++ ", expected " ++ expected)
  | value => .error (wrongType value expected)

/-- An integer of 64 bits, with a sign. -/
def readInteger : Json → Except String Json :=
  readInt "i64" (-9223372036854775808) 9223372036854775807

/-- A string. -/
def readString : Json → Except String Json
  | .str s => .ok (.str s)
  | value => .error (wrongType value "a string")

/-- A truth value. -/
def readBoolean : Json → Except String Json
  | .bool b => .ok (.bool b)
  | value => .error (wrongType value "a boolean")

/-- A list whose items are read one by one. -/
def readList (item : Json → Except String Json) : Json → Except String Json
  | .arr items => (items.mapM item).map .arr
  | value => .error (wrongType value "a sequence")

/-- **A value in a shape**, or what is wrong with it. -/
def read : Shape → Json → Except String Json
  | .byte, value => readInt "u8" 0 255 value
  | .integer, value => readInteger value
  | .number, .int i => .ok (.ofNumber (.ofInt i))
  | .number, .float negative m => .ok (.float negative m)
  | .number, value => .error (wrongType value "f64")
  | .boolean, value => readBoolean value
  | .string, value => readString value
  | .integers, value => readList readInteger value
  | .strings, value => readList readString value
  | .optionalBoolean, .null => .ok .null
  | .optionalBoolean, value => readBoolean value

end Shape

namespace Resource

/-- **The variable of a dotted name in a shape.** -/
def getAs (r : Resource) (shape : Shape) (name : String) : Except Error Json :=
  match r.get? name with
  | none => .error (.shape name (.coded "No such variable" 401))
  | some value =>
    match shape.read value with
    | .ok value => .ok value
    | .error message => .error (.shape name ⟨message, some ("Found " ++ value.compact), some 402⟩)

/-- The variable of a dotted name in a shape, or something else in its place. -/
def getOr (r : Resource) (shape : Shape) (name : String) (default : Json) : Json :=
  match r.getAs shape name with
  | .ok value => value
  | .error _ => default

end Resource

end Courseware
