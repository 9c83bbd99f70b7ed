/-!
# Numbers as text

Decimal and hexadecimal spelling of integers. A sign always stands first; a `0x` mark follows it, and padding
zeros stand between the mark and the digits. A padded width counts the sign and the mark.
-/

namespace Lift166

/-- The sign that stands before a number. -/
def signText (x : Int) : String :=
  if x < 0 then "-" else ""

/-- Decimal digits after the sign. -/
def decimal (x : Int) : String :=
  signText x ++ String.ofList (Nat.toDigits 10 x.natAbs)

/-- Lower-case hexadecimal digits of a natural number. -/
def hexDigits (n : Nat) : List Char :=
  Nat.toDigits 16 n

/-- Zeros that bring `digits` to at least `width` characters. -/
def zeroPadded (width : Nat) (digits : List Char) : List Char :=
  List.replicate (width - digits.length) '0' ++ digits

/-- Hexadecimal with the `0x` mark. -/
def hex (x : Int) : String :=
  signText x ++ "0x" ++ String.ofList (hexDigits x.natAbs)

/-- Hexadecimal with the `0x` mark, at least `width` characters in all. -/
def hexPadded (width : Nat) (x : Int) : String :=
  let sign := signText x
  sign ++ "0x" ++ String.ofList (zeroPadded (width - 2 - sign.length) (hexDigits x.natAbs))

/-- Upper-case hexadecimal without a mark, at least `width` characters in all. -/
def upperHexPadded (width : Nat) (x : Int) : String :=
  let sign := signText x
  sign ++ String.ofList (zeroPadded (width - sign.length) ((hexDigits x.natAbs).map Char.toUpper))

/-- Text followed by blanks up to `width` characters. -/
def leftAligned (width : Nat) (text : String) : String :=
  text ++ String.ofList (List.replicate (width - text.length) ' ')

end Lift166
