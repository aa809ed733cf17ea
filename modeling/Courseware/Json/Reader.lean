/-
Reading JSON text.

A reader takes the text that is left and either fails where it stopped, with
what was left there, or gives a value and what is left after it. Where a
reader stops is part of its meaning: the line of a mistake is the number of
newlines before it.

`value` reads any value. With `strict` off it only checks the text, as for a
value nobody wants: surrogates need no partner and numbers may be of any size.
-/
import Courseware.Json.Basic
import Courseware.Number.Scaled
import Courseware.Text.Blank
import Courseware.Text.Line

namespace Courseware.Json

namespace Reading

/-- The text that was left where reading stopped. -/
abbrev Stop := List Char

/-- The text after the spaces between tokens. -/
def skipSpace (cs : List Char) : List Char := cs.dropWhile Text.isSpace

/-- The text after `bytes` bytes of UTF-8, or after the character they end in. -/
def dropBytes : (bytes : Nat) → List Char → List Char
  | _, [] => []
  | bytes, c :: cs => if bytes = 0 then c :: cs else dropBytes (bytes - c.utf8Size) cs

/-- The text after the letters of `word`; a letter that differs is passed over. -/
def word : (letters : List Char) → List Char → Except Stop (List Char)
  | [], cs => .ok cs
  | _ :: _, [] => .error []
  | letter :: letters, c :: cs => if c = letter then word letters cs else .error cs

/-- The value of a hexadecimal digit. -/
def hexValue? (c : Char) : Option Nat :=
  if '0' ≤ c ∧ c ≤ '9' then some (c.toNat - '0'.toNat)
  else if 'a' ≤ c ∧ c ≤ 'f' then some (c.toNat - 'a'.toNat + 10)
  else if 'A' ≤ c ∧ c ≤ 'F' then some (c.toNat - 'A'.toNat + 10)
  else none

/-- Where a reader of strings stands between two characters. -/
inductive StringState where
  /-- Between characters of the string. -/
  | plain
  /-- After a backslash. -/
  | escaped
  /-- Before the `left` last digits of a code unit; `high` is the surrogate before it. -/
  | unit (left : Nat) (value : Nat) (high : Option Nat)
  /-- After a high surrogate, where its partner's backslash is due. -/
  | partner (high : Nat)
  /-- After that backslash. -/
  | partnerUnit (high : Nat)

/-- The character a letter after a backslash stands for. -/
def unescape? : Char → Option Char
  | '"' => some '"'
  | '\\' => some '\\'
  | '/' => some '/'
  | 'b' => some '\x08'
  | 'f' => some '\x0c'
  | 'n' => some '\n'
  | 'r' => some '\r'
  | 't' => some '\t'
  | _ => none

/-- What a finished code unit means: a character, or that a partner is due, or a mistake. -/
def finishUnit (strict : Bool) (value : Nat) : Option Nat → Option (StringState × List Char)
  | none =>
    if ¬ strict then some (.plain, [])
    else if 0xDC00 ≤ value ∧ value ≤ 0xDFFF then none
    else if 0xD800 ≤ value ∧ value ≤ 0xDBFF then some (.partner value, [])
    else some (.plain, [Char.ofNat value])
  | some high =>
    if 0xDC00 ≤ value ∧ value ≤ 0xDFFF then
      some (.plain, [Char.ofNat (0x10000 + (high - 0xD800) * 0x400 + (value - 0xDC00))])
    else none

/-- The rest of a string up to its closing quote; `done` holds what was read, last first. -/
def string (strict : Bool) : StringState → (done : List Char) → List Char →
    Except Stop (String × List Char)
  | _, _, [] => .error []
  | .plain, done, c :: cs =>
    if c = '"' then .ok (String.ofList done.reverse, cs)
    else if c = '\\' then string strict .escaped done cs
    else if c.toNat < 0x20 then .error (if strict then cs else c :: cs)
    else string strict .plain (c :: done) cs
  | .escaped, done, c :: cs =>
    if c = 'u' then string strict (.unit 4 0 none) done cs
    else
      match unescape? c with
      | some e => string strict .plain (e :: done) cs
      | none => .error cs
  | .unit left value high, done, c :: cs =>
    match hexValue? c with
    | none => .error (dropBytes left (c :: cs))
    | some digit =>
      if 1 < left then string strict (.unit (left - 1) (value * 16 + digit) high) done cs
      else
        match finishUnit strict (value * 16 + digit) high with
        | some (state, character) => string strict state (character ++ done) cs
        | none => .error cs
  | .partner high, done, c :: cs =>
    if c = '\\' then string strict (.partnerUnit high) done cs else .error cs
  | .partnerUnit high, done, c :: cs =>
    if c = 'u' then string strict (.unit 4 0 (some high)) done cs else .error cs

/-- The digits at the front, of which there has to be one. -/
def digits : List Char → Except Stop (List Char × List Char)
  | [] => .error []
  | c :: cs =>
    if c.isDigit then .ok (c :: cs.takeWhile Char.isDigit, cs.dropWhile Char.isDigit)
    else .error cs

/-- The digits before the point: a zero stands alone. -/
def wholePart : List Char → Except Stop (List Char × List Char)
  | '0' :: c :: cs => if c.isDigit then .error cs else .ok (['0'], c :: cs)
  | cs => digits cs

/-- The digits after the point, none if there is no point. -/
def fractionPart : List Char → Except Stop (List Char × List Char)
  | '.' :: cs => digits cs
  | cs => .ok ([], cs)

/-- The exponent, if there is one. -/
def exponentPart : List Char → Except Stop (Option Int × List Char)
  | c :: cs =>
    if c = 'e' ∨ c = 'E' then
      match cs with
      | '+' :: cs => (digits cs).map fun (ds, rest) => (some (Number.digitsValue ds), rest)
      | '-' :: cs => (digits cs).map fun (ds, rest) => (some (-(Number.digitsValue ds : Int)), rest)
      | cs => (digits cs).map fun (ds, rest) => (some (Number.digitsValue ds), rest)
    else .ok (none, c :: cs)
  | [] => .ok (none, [])

/-- The value of a number: an integer if it is written as one and has 64 bits, a floating-point
value if that is finite. -/
def numberValue? (negative : Bool) (whole fraction : List Char) (exponent : Option Int) :
    Option Json :=
  let n := Number.digitsValue whole
  let isInteger := fraction = [] ∧ exponent = none
  if isInteger ∧ ¬ negative ∧ n < Nat.pow 2 64 then some (.int n)
  else if isInteger ∧ negative ∧ 0 < n ∧ n ≤ Nat.pow 2 63 then some (.int (-(n : Int)))
  else (Magnitude.ofDigits? whole fraction (exponent.getD 0)).map (.float negative)

/-- An unsigned number after its sign. -/
def number (strict negative : Bool) (cs : List Char) : Except Stop (Json × List Char) := do
  let (whole, cs) ← wholePart cs
  let (fraction, cs) ← fractionPart cs
  let (exponent, rest) ← exponentPart cs
  match numberValue? negative whole fraction exponent with
  | some value => return (value, rest)
  | none => if strict then .error rest else return (.null, rest)

/-- A value that starts with none of the brackets. -/
def scalar (strict : Bool) : List Char → Except Stop (Json × List Char)
  | 'n' :: cs => do return (.null, ← word "ull".toList cs)
  | 't' :: cs => do return (.bool true, ← word "rue".toList cs)
  | 'f' :: cs => do return (.bool false, ← word "alse".toList cs)
  | '"' :: cs => do
    let (s, rest) ← string strict .plain [] cs
    return (.str s, rest)
  | '-' :: cs => number strict true cs
  | c :: cs => if c.isDigit then number strict false (c :: cs) else .error (c :: cs)
  | [] => .error []

mutual

/-- A value; `fuel` bounds how many values and separators there can be. -/
def valueWithin (strict : Bool) : (fuel : Nat) → List Char → Except Stop (Json × List Char)
  | 0, cs => .error cs
  | fuel + 1, cs =>
    match skipSpace cs with
    | '[' :: cs =>
      match skipSpace cs with
      | ']' :: cs => .ok (.arr [], cs)
      | cs => itemsWithin strict fuel [] cs
    | '\x7b' :: cs =>
      match skipSpace cs with
      | '\x7d' :: cs => .ok (.obj [], cs)
      | cs => entriesWithin strict fuel [] cs
    | cs => scalar strict cs

/-- The rest of an array from its next item on; `done` holds the items before it, last first. -/
def itemsWithin (strict : Bool) : (fuel : Nat) → (done : List Json) → List Char →
    Except Stop (Json × List Char)
  | 0, _, cs => .error cs
  | fuel + 1, done, cs => do
    let (item, cs) ← valueWithin strict fuel cs
    match skipSpace cs with
    | ',' :: cs => itemsWithin strict fuel (item :: done) cs
    | ']' :: cs => return (.arr (item :: done).reverse, cs)
    | cs => .error cs

/-- The rest of an object from its next key on; a repeated key keeps its place and the last
value. -/
def entriesWithin (strict : Bool) : (fuel : Nat) → (done : Dict Json) → List Char →
    Except Stop (Json × List Char)
  | 0, _, cs => .error cs
  | fuel + 1, done, cs =>
    match skipSpace cs with
    | '"' :: cs => do
      let (key, cs) ← string strict .plain [] cs
      match skipSpace cs with
      | ':' :: cs =>
        let (value, cs) ← valueWithin strict fuel cs
        match skipSpace cs with
        | ',' :: cs => entriesWithin strict fuel (done.insert key value) cs
        | '\x7d' :: cs => return (.obj (done.insert key value), cs)
        | cs => .error cs
      | cs => .error cs
    | cs => .error cs

end

/-- A value at the front of the text. -/
def value (strict : Bool) (cs : List Char) : Except Stop (Json × List Char) :=
  valueWithin strict (2 * cs.length + 2) cs

end Reading

/-- **The value of a JSON text**, which nothing but spaces may follow. -/
def ofText? (text : String) : Option Json :=
  match Reading.value true text.toList with
  | .ok (value, rest) => if Reading.skipSpace rest = [] then some value else none
  | .error _ => none

end Courseware.Json
