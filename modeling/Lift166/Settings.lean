import Lift166.Number.Literal
import Lift166.Override.Store
import Lift166.Text.Fold

/-!
# Settings

Two settings come from the environment: the data page pointers after reset, as four integers between commas, and a
switch that traces lifting. The switch is off when it is unset, blank, or one of the words `0`, `false` and `off` in
any case.
-/

namespace Lift166

/-- The settings. -/
structure Settings where
  /-- The data page pointers after reset. -/
  defaultDpp : DppVector
  /-- Whether every instruction is reported before it is lifted. -/
  traceLift : Bool
deriving DecidableEq

/-- Why settings cannot be read. -/
inductive SettingsError
  /-- There are not four values. -/
  | valueCount (raw : String)
  /-- A value is no integer. -/
  | badValue (cause : LiteralError)
deriving DecidableEq

/-- The variable that holds the data page pointers. -/
def dppVariable : String := "C166_DEFAULT_DPP"

/-- The variable that switches tracing. -/
def traceVariable : String := "C166_TRACE_LIFT"

/-- The wording of a settings error. -/
def SettingsError.message : SettingsError → String
  | valueCount raw => dppVariable ++ " expects four comma separated values, got " ++ quoted raw
  | badValue cause => cause.message

/-- The parts of a text between commas; there is always one. -/
def splitCommas : List Char → List (List Char)
  | [] => [[]]
  | c :: rest =>
    if c == ',' then [] :: splitCommas rest
    else
      match splitCommas rest with
      | [] => [[c]]
      | part :: parts => (c :: part) :: parts

/-- A page from the text of an integer. -/
def readPage (text : List Char) : Except SettingsError Page :=
  match readLiteral .marked (trimBlanks text) with
  | .ok value => .ok (.ofInt value)
  | .error e => .error (.badValue e)

/-- The data page pointers that a text gives. Blank text gives zeros. -/
def readDpp (raw : List Char) : Except SettingsError DppVector :=
  if (trimBlanks raw).isEmpty then .ok .zero
  else
    match splitCommas raw with
    | [a, b, c, d] => do
      let dpp0 ← readPage a
      let dpp1 ← readPage b
      let dpp2 ← readPage c
      let dpp3 ← readPage d
      return ⟨dpp0, dpp1, dpp2, dpp3⟩
    | _ => .error (.valueCount (String.ofList raw))

/-- The words that switch a setting off. -/
def offWords : List (List Char) :=
  [[], ['0'], ['f', 'a', 'l', 's', 'e'], ['o', 'f', 'f']]

/-- Whether a text switches a setting on. -/
def readSwitch (raw : List Char) : Bool :=
  !offWords.contains (foldCase (trimBlanks raw))

/-- The settings that the two variables give; a variable may be unset. -/
def Settings.read (dpp trace : Option String) : Except SettingsError Settings := do
  let defaultDpp ← match dpp with
    | some raw => readDpp raw.toList
    | none => pure .zero
  let traceLift := match trace with
    | some raw => readSwitch raw.toList
    | none => false
  return ⟨defaultDpp, traceLift⟩

end Lift166
