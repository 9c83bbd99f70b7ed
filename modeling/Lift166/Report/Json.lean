import Lift166.Number.Text
import Lift166.Text.Quoted

/-!
# JSON output

The part of JSON that reports need, printed with two blanks of indentation per level and one item per line.
-/

namespace Lift166

/-- A JSON value. -/
inductive JsonValue
  /-- The absent value. -/
  | null
  /-- An integer. -/
  | int (value : Int)
  /-- A text. -/
  | string (value : String)
  /-- A list. -/
  | array (items : List JsonValue)
  /-- A record. -/
  | object (fields : List (String × JsonValue))

/-- A line break and the indentation of a level. -/
def jsonIndent (level : Nat) : String :=
  "\n" ++ String.ofList (List.replicate (2 * level) ' ')

/-- A text between double quotes. The texts of reports are names of plain letters, digits and signs, none of which
needs an escape. -/
def jsonString (text : String) : String :=
  String.ofList (doubleQuote :: (text.toList ++ [doubleQuote]))

/-- Items between brackets, one per line. -/
def jsonLines (left right : String) (level : Nat) (items : List String) : String :=
  match items with
  | [] => left ++ right
  | items =>
    left ++ jsonIndent (level + 1) ++ ("," ++ jsonIndent (level + 1)).intercalate items ++ jsonIndent level ++ right

mutual

/-- A value at a level of indentation. -/
def JsonValue.print (level : Nat) : JsonValue → String
  | .null => "null"
  | .int value => decimal value
  | .string value => jsonString value
  | .array items => jsonLines "[" "]" level (printItems (level + 1) items)
  | .object fields => jsonLines "\x7b" "\x7d" level (printFields (level + 1) fields)

/-- The items of a list. -/
def printItems (level : Nat) : List JsonValue → List String
  | [] => []
  | item :: rest => item.print level :: printItems level rest

/-- The fields of a record. -/
def printFields (level : Nat) : List (String × JsonValue) → List String
  | [] => []
  | (key, value) :: rest => (jsonString key ++ ": " ++ value.print level) :: printFields level rest

end

/-- An optional text. -/
def JsonValue.ofOption : Option String → JsonValue
  | some text => .string text
  | none => .null

end Lift166
