/-
The written forms of numbers.

A `NumberStyle` is what a format decides about the text of a number, given its
shortest decimal: which way ties go, for which exponents the digits are
written out in place, and whether a whole number ends in `.0`. Documents use
`NumberStyle.document`; JSON text uses `NumberStyle.json`.

Reading accepts more than is written: a sign, digits with a point anywhere
among them, an exponent, and the words for infinity and for what is not a
number in any case.
-/
import Courseware.Number.Shortest

namespace Courseware

/-- What a format decides about the text of a number. -/
structure NumberStyle where
  /-- Which of two equally near shortest decimals is written. -/
  tie : Tie
  /-- Whether `d.ddd * 10 ^ e` is written with its digits in place. -/
  isPositional : (e : Int) → Bool
  /-- Whether a whole number written in place ends in `.0`. -/
  pointZero : Bool

namespace NumberStyle

/-- Documents never use an exponent, and a whole number has no point. -/
def document : NumberStyle := ⟨.up, fun _ => true, false⟩

/-- JSON text writes small and large numbers with an exponent, and each number with a point or
an exponent. -/
def json : NumberStyle := ⟨.even, fun e => -5 ≤ e && e ≤ 15, true⟩

/-- Digits with each at its place. -/
def positional (pointZero : Bool) (digits : List Char) (exponent : Int) : List Char :=
  if 0 ≤ exponent then
    digits ++ List.replicate exponent.toNat '0' ++ (if pointZero then ".0".toList else [])
  else
    let places := (-exponent).toNat
    if places < digits.length then
      digits.take (digits.length - places) ++ '.' :: digits.drop (digits.length - places)
    else "0.".toList ++ List.replicate (places - digits.length) '0' ++ digits

/-- Digits with a point after the first, and the exponent with its sign. -/
def scientific (digits : List Char) (e : Int) : List Char :=
  let fraction := digits.drop 1
  digits.take 1 ++ (if fraction = [] then [] else '.' :: fraction) ++ 'e' ::
    (if e < 0 then '-' else '+') :: Nat.toDigits 10 e.natAbs

/-- The text of a magnitude. -/
def magnitude (style : NumberStyle) (m : Magnitude) : List Char :=
  let d := m.shortest style.tie
  let digits := Nat.toDigits 10 d.digits
  let e := d.exponent + digits.length - 1
  if style.isPositional e then positional style.pointZero digits d.exponent
  else scientific digits e

/-- The text of a sign and a magnitude. -/
def signed (style : NumberStyle) (negative : Bool) (m : Magnitude) : List Char :=
  if negative then '-' :: style.magnitude m else style.magnitude m

end NumberStyle

namespace Number

/-- A number as a document writes it. -/
def written : Number → List Char
  | .nan => "NaN".toList
  | .infinite negative => if negative then "-inf".toList else "inf".toList
  | .finite negative m => NumberStyle.document.signed negative m

/-- A number as a document writes it. -/
def text (n : Number) : String := String.ofList n.written

/-- The value of a list of digits. -/
def digitsValue (digits : List Char) : Nat :=
  digits.foldl (fun n c => n * 10 + (c.toNat - '0'.toNat)) 0

/-- The exponent that follows the digits: nothing, or `e` and an integer. -/
def exponent? : List Char → Option Int
  | [] => some 0
  | c :: rest =>
    if c = 'e' ∨ c = 'E' then
      let (negative, digits) :=
        match rest with
        | '-' :: digits => (true, digits)
        | '+' :: digits => (false, digits)
        | digits => (false, digits)
      if digits ≠ [] ∧ digits.all Char.isDigit then
        let n : Int := digitsValue digits
        some (if negative then -n else n)
      else none
    else none

/-- An unsigned decimal: digits, with a point somewhere among them or not, and an exponent. -/
def decimal? (cs : List Char) : Option Decimal :=
  let whole := cs.takeWhile Char.isDigit
  let (fraction, rest) :=
    match cs.dropWhile Char.isDigit with
    | '.' :: rest => (rest.takeWhile Char.isDigit, rest.dropWhile Char.isDigit)
    | rest => ([], rest)
  if whole = [] ∧ fraction = [] then none
  else
    (exponent? rest).map fun e =>
      ⟨digitsValue (whole ++ fraction), e - (fraction.length : Int)⟩

/-- The number an unsigned text stands for. -/
def unsigned? (negative : Bool) (cs : List Char) : Option Number :=
  let word := cs.map Char.toLower
  if word = "nan".toList then some .nan
  else if word = "inf".toList ∨ word = "infinity".toList then some (.infinite negative)
  else (decimal? cs).map fun d => ofMagnitude? negative d.magnitude?

/-- **The number a text stands for**, if it is the text of one. -/
def ofChars? : List Char → Option Number
  | '-' :: cs => unsigned? true cs
  | '+' :: cs => unsigned? false cs
  | cs => unsigned? false cs

/-- The number a string stands for. -/
def ofText? (s : String) : Option Number := ofChars? s.toList

/-- The number of a literal, in which `_` may separate digits. -/
def ofLiteral? (cs : List Char) : Option Number := ofChars? (cs.filter (· ≠ '_'))

end Number

end Courseware
