/-!
# Caseless text

Two words are the same up to case when their folded forms are equal. The words that settings are compared with
are ASCII, so folding is needed only for the characters whose folded form is ASCII: the capital letters, and the
few letters and ligatures that fold to small ASCII letters. Every other character is left as it is.
-/

namespace Lift166

/-- The folded form of a character, where that is ASCII text. -/
def foldChar (c : Char) : List Char :=
  if c.isUpper then [c.toLower]
  else match c.toNat with
    | 0x00DF | 0x1E9E => ['s', 's']
    | 0x017F => ['s']
    | 0x212A => ['k']
    | 0xFB00 => ['f', 'f']
    | 0xFB01 => ['f', 'i']
    | 0xFB02 => ['f', 'l']
    | 0xFB03 => ['f', 'f', 'i']
    | 0xFB04 => ['f', 'f', 'l']
    | 0xFB05 | 0xFB06 => ['s', 't']
    | _ => [c]

/-- The text in its folded form. -/
def foldCase (text : List Char) : List Char :=
  text.flatMap foldChar

end Lift166
