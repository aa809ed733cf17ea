/-
Decimals read in steps.

A reader that works with 64 bits keeps the digits of a decimal as long as the
natural number they make fits, and only counts the others. That number is
rounded, and then multiplied or divided by a power of ten, which rounds again.
So the result of many digits can be a neighbour of the nearest magnitude,
while that of few digits and a small exponent is the nearest one. A quotient
by more than `10 ^ 308` takes a rounding for each such factor.
-/
import Courseware.Number.Text

namespace Courseware

namespace Magnitude

/-- The magnitude nearest to a product; nothing if that is too large to be finite. -/
def product? (m n : Magnitude) : Option Magnitude :=
  nearest? (m.ratio.1 * n.ratio.1) (m.ratio.2 * n.ratio.2)

/-- The magnitude nearest to a quotient, whose divisor is at least one. -/
def quotient (m n : Magnitude) : Magnitude :=
  (nearest? (m.ratio.1 * n.ratio.2) (m.ratio.2 * n.ratio.1)).getD .zero

/-- The magnitude nearest to a power of ten up to `10 ^ 308`. -/
def tenTo (exponent : Nat) : Magnitude := (nearest? (Nat.pow 10 exponent) 1).getD .zero

/-- A magnitude divided by a power of ten, `10 ^ 308` at a time. -/
def scaleDown (m : Magnitude) (places : Nat) : Magnitude :=
  if m.mantissa = 0 then m
  else if places ≤ 308 then m.quotient (tenTo places)
  else scaleDown (m.quotient (tenTo 308)) (places - 308)
termination_by places

/-- A natural number times a power of ten, rounded at each step; nothing if that is too large to be
finite. -/
def scaled? (n : Nat) (exponent : Int) : Option Magnitude :=
  (nearest? n 1).bind fun m =>
    if exponent < 0 then some (m.scaleDown (-exponent).toNat)
    else if m.mantissa = 0 then some m
    else if exponent ≤ 308 then m.product? (tenTo exponent.toNat)
    else none

/-- The number made of `kept` and as many of the digits as fit in 64 bits with it, and how many
these are. -/
def keepDigits (kept : Nat) : List Char → Nat × Nat
  | [] => (kept, 0)
  | c :: cs =>
    let next := kept * 10 + Number.digitsValue [c]
    if next < Nat.pow 2 64 then
      let (kept, count) := keepDigits next cs
      (kept, count + 1)
    else (kept, 0)

/-- **The magnitude of a decimal read in steps**: the digits before and after its point, and its
exponent; nothing if that is too large to be finite. -/
def ofDigits? (whole fraction : List Char) (exponent : Int) : Option Magnitude :=
  let (kept, before) := keepDigits 0 whole
  let (kept, after) := keepDigits kept fraction
  scaled? kept (exponent + (whole.length - before : Nat) - after)

end Magnitude

end Courseware
