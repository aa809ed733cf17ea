/-
Decimals, and the binary64 magnitude nearest to one.

A `Decimal` is `digits * 10 ^ exponent`. Reading one is exact up to a single
rounding. The exponent of a written decimal can be far out of range, so the
two cases that need no arithmetic are taken first: at 400 digits before the
point and no fewer the value is infinite, at 400 zeros after it the value is
zero.
-/
import Courseware.Number.Basic

namespace Courseware

/-- The value `digits * 10 ^ exponent`. -/
structure Decimal where
  digits : Nat
  exponent : Int
  deriving DecidableEq, Repr

namespace Decimal

/-- How many decimal digits a natural number has. -/
def width (n : Nat) : Nat := (Nat.toDigits 10 n).length

/-- A decimal as a quotient of natural numbers. -/
def ratio (d : Decimal) : Nat × Nat :=
  if 0 ≤ d.exponent then (d.digits * Nat.pow 10 d.exponent.toNat, 1)
  else (d.digits, Nat.pow 10 (-d.exponent).toNat)

/-- **The magnitude nearest to a decimal**; nothing if it is too large to be finite. -/
def magnitude? (d : Decimal) : Option Magnitude :=
  if d.digits = 0 then some .zero
  else
    let places := d.exponent + width d.digits
    if 400 < places then none
    else if places < -400 then some .zero
    else Magnitude.nearest? d.ratio.1 d.ratio.2

/-- A decimal without trailing zeros among its digits; `fuel` bounds how many are taken away. -/
def stripZeros : (fuel : Nat) → Decimal → Decimal
  | 0, d => d
  | fuel + 1, d =>
    if d.digits ≠ 0 ∧ d.digits % 10 = 0 then stripZeros fuel ⟨d.digits / 10, d.exponent + 1⟩ else d

/-- The same value with as few digits as it needs. -/
def normal (d : Decimal) : Decimal := stripZeros (width d.digits) d

end Decimal

end Courseware
