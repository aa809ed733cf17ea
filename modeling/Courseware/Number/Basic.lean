/-
The numbers of a document: binary64 floating point, exactly.

A finite number is a sign and a `Magnitude`, whose value is
`mantissa * 2 ^ exponent` in units of `2 ^ -1074`, the least positive one.
Each value has one magnitude: the mantissa has 53 bits unless the exponent is
zero. Rounding works on quotients of natural numbers, so nothing here depends
on machine arithmetic.

Powers are written with `Nat.pow`. The sign `^` would stand for another
function of the same values wherever an algebra library is imported.
-/

namespace Courseware

/-- Which way a value halfway between two neighbours goes. -/
inductive Tie where
  /-- To the neighbour that is even. -/
  | even
  /-- To the larger neighbour. -/
  | up
  deriving DecidableEq, Repr

namespace Tie

/-- The natural number nearest to `num / den`. -/
def nearest (tie : Tie) (num den : Nat) : Nat :=
  let low := num / den
  let twice := 2 * (num % den)
  if twice < den then low
  else if den < twice then low + 1
  else
    match tie with
    | .up => low + 1
    | .even => if low % 2 = 0 then low else low + 1

end Tie

/-- One mantissa and exponent for each finite magnitude. -/
def Magnitude.Canonical (mantissa exponent : Nat) : Prop :=
  mantissa < Nat.pow 2 53 ∧ exponent ≤ 2045 ∧ (exponent = 0 ∨ Nat.pow 2 52 ≤ mantissa)

instance (mantissa exponent : Nat) : Decidable (Magnitude.Canonical mantissa exponent) := by
  unfold Magnitude.Canonical; infer_instance

/-- A finite number without its sign. -/
structure Magnitude where
  /-- At most 53 bits. -/
  mantissa : Nat
  /-- The power of two that the mantissa is multiplied by, in units of `2 ^ -1074`. -/
  exponent : Nat
  canonical : Magnitude.Canonical mantissa exponent
  deriving DecidableEq

namespace Magnitude

/-- Zero. -/
def zero : Magnitude := ⟨0, 0, by decide⟩

/-- The magnitude as a quotient of natural numbers. -/
def ratio (m : Magnitude) : Nat × Nat :=
  if 1074 ≤ m.exponent then (m.mantissa * Nat.pow 2 (m.exponent - 1074), 1)
  else (m.mantissa, Nat.pow 2 (1074 - m.exponent))

/-- The magnitude of a mantissa that was rounded to 53 bits, and may have become the first one of
54; nothing if it is too large to be finite. -/
def ofRounded? (mantissa exponent : Nat) : Option Magnitude :=
  if h : Canonical mantissa exponent then some ⟨mantissa, exponent, h⟩
  else if h : mantissa = Nat.pow 2 53 ∧ Canonical (Nat.pow 2 52) (exponent + 1) then
    some ⟨Nat.pow 2 52, exponent + 1, h.2⟩
  else none

/-- The exponent at which a quotient has 53 bits, zero if it has no more of them. -/
def exponentOf (units den : Nat) : Nat := (units / den).log2 - 52

/-- **The magnitude nearest to `num / den`**, ties to the even mantissa; nothing if that is too
large to be finite. -/
def nearest? (num den : Nat) : Option Magnitude :=
  let units := num * Nat.pow 2 1074
  let exponent := exponentOf units den
  ofRounded? (Tie.even.nearest units (den * Nat.pow 2 exponent)) exponent

/-- The largest natural number that is not above the magnitude. -/
def floor (m : Magnitude) : Nat := m.ratio.1 / m.ratio.2

/-- Whether the magnitude is a natural number. -/
def isIntegral (m : Magnitude) : Bool := m.ratio.1 % m.ratio.2 = 0

end Magnitude

/-- A binary64 number. -/
inductive Number where
  /-- Not a number. -/
  | nan
  | infinite (negative : Bool)
  | finite (negative : Bool) (magnitude : Magnitude)
  deriving DecidableEq

namespace Number

instance : Inhabited Number := ⟨.nan⟩

/-- The finite number of a sign and a magnitude, infinite if there is none. -/
def ofMagnitude? (negative : Bool) : Option Magnitude → Number
  | some m => .finite negative m
  | none => .infinite negative

/-- The number nearest to an integer. -/
def ofInt (i : Int) : Number := ofMagnitude? (i < 0) (Magnitude.nearest? i.natAbs 1)

end Number

end Courseware
