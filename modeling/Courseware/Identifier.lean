/-
Identifiers of components.

An identifier is 128 bits in five groups of hexadecimal digits. Its thirteenth
digit is 4 and its seventeenth one of 8, 9, a and b, as in a version 4 UUID;
the other 122 bits are those of a number.
-/

namespace Courseware.Identifier

/-- The last `count` hexadecimal digits of a number. -/
def hex : (count : Nat) → Nat → List Char
  | 0, _ => []
  | count + 1, n => hex count (n / 16) ++ [Nat.digitChar (n % 16)]

/-- **The identifier that carries the last 122 bits of a number.** -/
def ofNat (n : Nat) : String :=
  String.ofList <|
    hex 8 (n >>> 90) ++ '-' :: hex 4 (n >>> 74) ++ '-' :: '4' :: hex 3 (n >>> 62) ++
      '-' :: Nat.digitChar (8 + (n >>> 60) % 4) :: hex 3 (n >>> 48) ++ '-' :: hex 12 n

end Courseware.Identifier
