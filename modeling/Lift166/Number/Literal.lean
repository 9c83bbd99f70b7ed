import Lift166.Number.Text
import Lift166.Text.Blank
import Lift166.Text.Digit
import Lift166.Text.Quoted

/-!
# Integer literals

An integer literal is an optional sign and digits, with blanks around it. Single underscores may stand between
digits, and decimal digits of any script count. Where the base is open, `0x`, `0o` and `0b` choose one, an
underscore may follow such a mark, and a decimal number does not start with a zero unless it is zero. A decimal
number of more than 4300 digits is refused, whatever follows it.
-/

namespace Lift166

/-- Which bases a literal may be written in. -/
inductive LiteralBase
  /-- Decimal only. -/
  | decimal
  /-- The literal's own mark chooses the base. -/
  | marked
deriving DecidableEq

/-- The number by which a base is named in messages; zero stands for an open base. -/
def LiteralBase.number : LiteralBase → Nat
  | .decimal => 10
  | .marked => 0

/-- Why a text is no integer literal. -/
inductive LiteralError
  /-- The text does not have the form of a literal. -/
  | malformed (base : LiteralBase) (text : String)
  /-- The number has too many decimal digits. -/
  | tooLong (digits : Nat)
deriving DecidableEq

/-- The largest number of decimal digits that is read. -/
def maxDecimalDigits : Nat := 4300

/-- Quotations in messages about literals are cut off after this many characters. -/
def literalQuoteLimit : Nat := 200

/-- The wording of a literal error. -/
def LiteralError.message : LiteralError → String
  | .malformed base text =>
    "invalid literal for int() with base " ++ decimal base.number ++ ": "
      ++ String.ofList ((quotedChars text.toList).take literalQuoteLimit)
  | .tooLong digits =>
    "Exceeds the limit (" ++ decimal maxDecimalDigits ++ " digits) for integer string conversion: value has "
      ++ decimal digits ++ " digits; use sys.set_int_max_str_digits() to increase the limit"

/-- The value of a digit in some base up to 36, decimal digits of every script included. -/
def digitValue? (c : Char) : Option Nat :=
  match decimalDigit? c with
  | some d => some d
  | none =>
    if 'a' ≤ c ∧ c ≤ 'z' then some (c.toNat - 'a'.toNat + 10)
    else if 'A' ≤ c ∧ c ≤ 'Z' then some (c.toNat - 'A'.toNat + 10)
    else none

/-- Whether a character is a digit of the base. -/
def isDigitOf (base : Nat) (c : Char) : Bool :=
  match digitValue? c with
  | some d => d < base
  | none => false

/-- Whether underscores stand singly between digits: none first, none last, no two together. -/
def underscoresBetween : List Char → Bool
  | [] => false
  | ['_'] => false
  | [_] => true
  | '_' :: _ => false
  | _ :: '_' :: rest => underscoresBetween rest
  | _ :: rest => underscoresBetween rest

/-- The number that a run of digits and underscores writes in a base. -/
def digitsValue (base : Nat) (run : List Char) : Nat :=
  (run.filterMap digitValue?).foldl (fun acc d => acc * base + d) 0

/-- The digits of a literal after its sign and mark: their base, the text that starts with them, and whether
they may write nothing but zero. -/
structure LiteralBody where
  /-- The base of the digits. -/
  base : Nat
  /-- The text from the first digit on. -/
  text : List Char
  /-- Set where a decimal number starts with a zero although its base was open. -/
  onlyZero : Bool

/-- Drops one underscore, which may follow a base mark. -/
def dropUnderscore : List Char → List Char
  | '_' :: rest => rest
  | text => text

/-- Whether the first character is a zero digit, of any script. -/
def startsWithZero : List Char → Bool
  | [] => false
  | c :: _ => decimalDigit? c == some 0

/-- The base mark in the second place, where the first digit is a zero. -/
def baseOfMark? : Char → Option Nat
  | 'x' | 'X' => some 16
  | 'o' | 'O' => some 8
  | 'b' | 'B' => some 2
  | _ => none

/-- Finds the base of the digits of a literal. -/
def literalBody : LiteralBase → List Char → LiteralBody
  | .decimal, text => ⟨10, text, false⟩
  | .marked, text =>
    if startsWithZero text then
      match text with
      | _ :: mark :: rest =>
        match baseOfMark? mark with
        | some base => ⟨base, dropUnderscore rest, false⟩
        | none => ⟨10, text, true⟩
      | _ => ⟨10, text, true⟩
    else ⟨10, text, false⟩

/-- Splits off the sign: `-1` or `1`, and the rest. -/
def splitSign : List Char → Int × List Char
  | '+' :: rest => (1, rest)
  | '-' :: rest => (-1, rest)
  | text => (1, text)

/-- Reads the digits of a literal and checks what follows them. The length is checked before the rest. -/
def LiteralBody.read (body : LiteralBody) (malformed : LiteralError) : Except LiteralError Nat :=
  let isPart := fun c => c == '_' || isDigitOf body.base c
  let run := body.text.takeWhile isPart
  let rest := body.text.dropWhile isPart
  let digits := (run.filter (· != '_')).length
  let value := digitsValue body.base run
  if !underscoresBetween run then .error malformed
  else if body.base == 10 && maxDecimalDigits < digits then .error (.tooLong digits)
  else if body.onlyZero && value != 0 then .error malformed
  else if rest.any (fun c => !isNumberBlank c) then .error malformed
  else .ok value

/-- Reads an integer literal. -/
def readLiteral (base : LiteralBase) (text : List Char) : Except LiteralError Int :=
  let (sign, digits) := splitSign (text.dropWhile isNumberBlank)
  match (literalBody base digits).read (.malformed base (String.ofList text)) with
  | .ok n => .ok (sign * (n : Int))
  | .error e => .error e

end Lift166
