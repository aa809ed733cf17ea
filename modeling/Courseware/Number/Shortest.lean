/-
The shortest decimal that reads back.

Among the decimals of `n` digits only the two next to a value can be nearest
to it, so for `n = 1, 2, …, 17` those two are tried. The first `n` at which
one of them reads back as the same magnitude wins; of two the nearer one is
taken, and a tie goes as the caller says. Seventeen digits always suffice;
the exact expansion stands behind them, so that what is returned reads back
whatever one knows about that.
-/
import Courseware.Number.Decimal

namespace Courseware.Magnitude

/-- The exponent `p` with `10 ^ (p - 1) ≤ m < 10 ^ p`. -/
def decimalPlaces (m : Magnitude) : Int :=
  let (num, den) := m.ratio
  if den ≤ num then (Decimal.width (num / den) : Int)
  else 1 - (Decimal.width ((den + num - 1) / num - 1) : Int)

/-- The quotient `m / 10 ^ exponent` of natural numbers. -/
def scaled (m : Magnitude) (exponent : Int) : Nat × Nat :=
  let (num, den) := m.ratio
  if 0 ≤ exponent then (num, den * Nat.pow 10 exponent.toNat)
  else (num * Nat.pow 10 (-exponent).toNat, den)

/-- The decimal of `count` digits that reads back as `m` and is nearest to it, if there is one. -/
def roundTo? (tie : Tie) (m : Magnitude) (count : Nat) : Option Decimal :=
  let exponent := m.decimalPlaces - count
  let (num, den) := m.scaled exponent
  let low := num / den
  let near := tie.nearest num den
  let far := if near = low then low + 1 else low
  [near, far].findSome? fun digits =>
    let d : Decimal := ⟨digits, exponent⟩
    if d.magnitude? = some m then some d else none

/-- Every digit of `m`. -/
def exactDecimal (m : Magnitude) : Decimal :=
  if 1074 ≤ m.exponent then ⟨m.mantissa * Nat.pow 2 (m.exponent - 1074), 0⟩
  else ⟨m.mantissa * Nat.pow 5 (1074 - m.exponent), (m.exponent : Int) - 1074⟩

/-- **The decimal with the fewest digits that reads back as `m`**, and of those the nearest. -/
def shortest (tie : Tie) (m : Magnitude) : Decimal :=
  if m.mantissa = 0 then ⟨0, 0⟩
  else
    (((List.range 17).findSome? fun i => m.roundTo? tie (i + 1)).getD m.exactDecimal).normal

end Courseware.Magnitude
