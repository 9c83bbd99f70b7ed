import Lift166.Number.Text
import Lift166.Text.Printable

/-!
# Quoted text

Names and raw input are quoted in messages. The mark is an apostrophe, unless the text holds one and holds no
double quote. Backslashes, the mark itself and the three usual control characters are escaped with a backslash;
any other character that does not print is written by its code point, in the shortest of the forms with two, four
and eight hexadecimal digits.
-/

namespace Lift166

/-- The usual quotation mark. -/
def apostrophe : Char := Char.ofNat 0x27

/-- The mark for a text that holds an apostrophe. -/
def doubleQuote : Char := Char.ofNat 0x22

/-- The mark that a text is quoted with. -/
def quoteMark (text : List Char) : Char :=
  if text.contains apostrophe && !text.contains doubleQuote then doubleQuote else apostrophe

/-- A character by its code point. -/
def codePointEscape (n : Nat) : List Char :=
  if n < 0x100 then '\\' :: 'x' :: zeroPadded 2 (hexDigits n)
  else if n < 0x10000 then '\\' :: 'u' :: zeroPadded 4 (hexDigits n)
  else '\\' :: 'U' :: zeroPadded 8 (hexDigits n)

/-- A character inside a quotation that uses `mark`. -/
def quoteChar (mark c : Char) : List Char :=
  if c == mark || c == '\\' then ['\\', c]
  else if c == '\t' then ['\\', 't']
  else if c == '\n' then ['\\', 'n']
  else if c == '\r' then ['\\', 'r']
  else if isPrintable c then [c]
  else codePointEscape c.toNat

/-- The text between quotation marks. -/
def quotedChars (text : List Char) : List Char :=
  let mark := quoteMark text
  mark :: (text.flatMap (quoteChar mark) ++ [mark])

/-- The text between quotation marks. -/
def quoted (text : String) : String :=
  String.ofList (quotedChars text.toList)

end Lift166
