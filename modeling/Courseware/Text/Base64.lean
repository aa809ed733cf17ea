/-
Base64 text of bytes, with the standard alphabet and padding.

Three bytes make four characters; one or two bytes at the end make two or
three characters and the padding that fills them up to four.
-/

namespace Courseware.Text.Base64

/-- The 64 characters, each at the place of the number it stands for. -/
def alphabet : List Char :=
  "ABCDEFGHIJKLMNOPQRSTUVWXYZabcdefghijklmnopqrstuvwxyz0123456789+/".toList

/-- The character for a number below 64. -/
def digit (n : Nat) : Char := alphabet.getD n 'A'

/-- The number a character stands for. -/
def value? (c : Char) : Option Nat := alphabet.idxOf? c

/-- The characters for a list of bytes. -/
def encodeBytes : List UInt8 → List Char
  | a :: b :: c :: rest =>
    let n := a.toNat * 65536 + b.toNat * 256 + c.toNat
    digit (n / 262144) :: digit (n / 4096 % 64) :: digit (n / 64 % 64) :: digit (n % 64) ::
      encodeBytes rest
  | [a, b] =>
    let n := a.toNat * 1024 + b.toNat * 4
    [digit (n / 4096), digit (n / 64 % 64), digit (n % 64), '=']
  | [a] =>
    let n := a.toNat * 16
    [digit (n / 64), digit (n % 64), '=', '=']
  | [] => []

/-- The bytes a list of characters stands for. -/
def decodeChars : List Char → Option (List UInt8)
  | [] => some []
  | [w, x, '=', '='] => do
    let n := (← value? w) * 64 + (← value? x)
    return [UInt8.ofNat (n / 16)]
  | [w, x, y, '='] => do
    let n := (← value? w) * 4096 + (← value? x) * 64 + (← value? y)
    return [UInt8.ofNat (n / 1024), UInt8.ofNat (n / 4 % 256)]
  | w :: x :: y :: z :: rest => do
    let n := (← value? w) * 262144 + (← value? x) * 4096 + (← value? y) * 64 + (← value? z)
    let bytes ← decodeChars rest
    return UInt8.ofNat (n / 65536) :: UInt8.ofNat (n / 256 % 256) :: UInt8.ofNat (n % 256) :: bytes
  | _ => none

/-- The Base64 text of some bytes. -/
def encode (bytes : ByteArray) : String := String.ofList (encodeBytes bytes.toList)

/-- The bytes of a Base64 text, if it is one. -/
def decode? (text : String) : Option ByteArray :=
  (decodeChars text.toList).map fun bytes => ByteArray.mk bytes.toArray

end Courseware.Text.Base64
