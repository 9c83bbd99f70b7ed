import Lift166.Text.Digit

/-!
# Command-line arguments

The grammar of a report's arguments. An option starts with two dashes and may be shortened as long as it stays
unambiguous; its value follows as the next argument or after an equals sign. Numbers with a minus sign, a single
dash, and texts with a blank are plain arguments although they start with a dash. After an argument `--`
everything is plain.
-/

namespace Lift166

/-- What a report takes on its command line. -/
structure Grammar where
  /-- Options without a value. -/
  switches : List String
  /-- Options with a value. -/
  valued : List String
  /-- The number of plain arguments: none or one. -/
  takesOperand : Bool

/-- What became of the arguments. -/
structure Arguments where
  /-- The options without a value that were given. -/
  switches : List String
  /-- The options with a value that were given, the last one first. -/
  values : List (String × String)
  /-- The plain argument. -/
  operand : Option String
deriving DecidableEq

/-- Why a report does not start. -/
inductive ArgumentStop
  /-- Help was asked for. -/
  | help
  /-- The arguments do not fit the grammar. -/
  | usage
deriving DecidableEq

/-- One argument by its form. -/
inductive ArgumentForm
  /-- A plain argument. -/
  | plain (text : String)
  /-- The argument after which everything is plain. -/
  | separator
  /-- An option with the value written after an equals sign, if there is one. -/
  | option (name : String) (value : Option String)
  /-- Looks like an option and is none. -/
  | unknown
deriving DecidableEq

/-- The option that asks for help. -/
def helpOption : String := "--help"

/-- The argument after which everything is plain. -/
def separatorText : String := "--"

/-- Every option. -/
def Grammar.options (g : Grammar) : List String :=
  helpOption :: (g.switches ++ g.valued)

/-- A text without the line break that it may end in. -/
def dropLineEnd (text : List Char) : List Char :=
  if text.getLast? == some '\n' then text.dropLast else text

/-- Whether a text is a number with a minus sign: digits, with a point before the last of them or without. A line
break may follow. -/
def isNegativeNumber (text : List Char) : Bool :=
  let isDigit := fun c => (decimalDigit? c).isSome
  match dropLineEnd text with
  | '-' :: body =>
    match body.dropWhile isDigit with
    | [] => !body.isEmpty
    | '.' :: fraction => !fraction.isEmpty && fraction.all isDigit
    | _ => false
  | _ => false

/-- Splits an option at its first equals sign. -/
def splitValue (text : List Char) : List Char × Option (List Char) :=
  match text.dropWhile (· != '=') with
  | [] => (text, none)
  | _ :: value => (text.takeWhile (· != '='), some value)

/-- The form of an argument that starts with two dashes and more: the option it is or shortens. -/
def Grammar.longForm (g : Grammar) (text : List Char) : Except ArgumentStop (Option ArgumentForm) :=
  let (name, value) := splitValue text
  let written := value.map String.ofList
  if g.options.contains (String.ofList text) then .ok (some (.option (String.ofList text) none))
  else if g.options.contains (String.ofList name) then .ok (some (.option (String.ofList name) written))
  else
    match g.options.filter (fun o => name.isPrefixOf o.toList) with
    | [] => .ok none
    | [option] => .ok (some (.option option written))
    | _ => .error .usage

/-- The form of an argument that starts with the short option for help, from what follows its first letter. The
letter may be repeated; anything else counts as a value, which help does not take. -/
def helpForm (text : List Char) : ArgumentForm :=
  match text.dropWhile (· == 'h') with
  | [] => .option helpOption none
  | rest => .option helpOption (some (String.ofList rest))

/-- The form of an argument before the separator. -/
def Grammar.form (g : Grammar) (arg : String) : Except ArgumentStop ArgumentForm :=
  let text := arg.toList
  let rest : ArgumentForm :=
    if isNegativeNumber text || text.contains ' ' then .plain arg else .unknown
  match text with
  | '-' :: '-' :: [] => .ok .separator
  | '-' :: '-' :: _ => do return (← g.longForm text).getD rest
  | '-' :: 'h' :: tail => .ok (helpForm tail)
  | '-' :: _ :: _ => .ok rest
  | _ => .ok (.plain arg)

/-- The forms of the arguments in order. -/
def Grammar.forms (g : Grammar) : List String → Except ArgumentStop (List ArgumentForm)
  | [] => .ok []
  | arg :: rest => do
    match ← g.form arg with
    | .separator => return .separator :: rest.map .plain
    | form => return form :: (← g.forms rest)

/-- An option is given without a value. -/
def Arguments.switch (acc : Arguments) (name : String) : Arguments :=
  { acc with switches := name :: acc.switches }

/-- An option is given with a value. The separator in the place of a value leaves the value empty. -/
def Arguments.assign (acc : Arguments) (name text : String) : Arguments :=
  { acc with values := (name, if text == separatorText then "" else text) :: acc.values }

/-- Whether a plain argument is still wanted. -/
def Grammar.wantsOperand (g : Grammar) (acc : Arguments) : Bool :=
  g.takesOperand && acc.operand.isNone

/-- Takes the arguments in order, and notes whether one of them fits nowhere. A separator fits next to the plain
argument that is wanted. -/
def Grammar.take (g : Grammar) : Arguments → Bool → List ArgumentForm → Except ArgumentStop (Arguments × Bool)
  | acc, unused, [] => .ok (acc, unused)
  | acc, _, .unknown :: rest => g.take acc true rest
  | acc, unused, .option name (some text) :: rest =>
    if g.valued.contains name then g.take (acc.assign name text) unused rest else .error .usage
  | acc, unused, .option name none :: .plain text :: rest =>
    if g.valued.contains name then g.take (acc.assign name text) unused rest
    else if g.switches.contains name then g.take (acc.switch name) unused (.plain text :: rest)
    else .error .help
  | acc, unused, .option name none :: rest =>
    if g.valued.contains name then .error .usage
    else if g.switches.contains name then g.take (acc.switch name) unused rest
    else .error .help
  | acc, unused, .separator :: .plain text :: rest =>
    if g.wantsOperand acc then g.take { acc with operand := some text } unused rest
    else g.take acc true rest
  | acc, _, .separator :: rest => g.take acc true rest
  | acc, unused, .plain text :: .separator :: rest =>
    if g.wantsOperand acc then g.take { acc with operand := some text } unused rest
    else g.take acc true rest
  | acc, unused, .plain text :: rest =>
    if g.wantsOperand acc then g.take { acc with operand := some text } unused rest
    else g.take acc true rest

/-- Reads the arguments of a report. -/
def Grammar.read (g : Grammar) (args : List String) : Except ArgumentStop Arguments := do
  let forms ← g.forms args
  let (arguments, unused) ← g.take ⟨[], [], none⟩ false forms
  if unused || (g.takesOperand && arguments.operand.isNone) then throw .usage
  else return arguments

end Lift166
