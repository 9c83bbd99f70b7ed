import Lift166.Encoding.Opcode
import Lift166.Report.Arguments
import Lift166.Report.Basic
import Lift166.Report.Json

/-!
# The opcode report

Lists the opcode table, as lines or as JSON, whole or for one family.
-/

namespace Lift166

/-- The grammar of the report. -/
def opcodeGrammar : Grammar :=
  { switches := ["--json"], valued := ["--family"], takesOperand := false }

/-- How the report is used. -/
def opcodeUsage : String :=
  "usage: opcodes [--json] [--family FAMILY]\n"

/-- A row as a line. -/
def OpcodeEntry.line (entry : OpcodeEntry) : String :=
  "0x" ++ upperHexPadded 2 entry.opcode ++ "  " ++ leftAligned 7 entry.mnemonic ++ " "
    ++ leftAligned 9 entry.family.name ++ " len=" ++ decimal entry.length ++ "  flags="
    ++ (match entry.flags with | some policy => policy.name | none => "-") ++ "\n"

/-- A row as a record. -/
def OpcodeEntry.toJson (entry : OpcodeEntry) : JsonValue :=
  .object [("opcode", .int entry.opcode), ("mnemonic", .string entry.mnemonic),
    ("family", .string entry.family.name), ("length", .int entry.length),
    ("flags", .ofOption (entry.flags.map FlagPolicy.name)),
    ("operation", .ofOption (entry.operation.map Operation.name))]

/-- The rows of a family; an empty name stands for all. -/
def opcodeRows (family : Option String) : List OpcodeEntry :=
  match family with
  | none => opcodeListing
  | some name =>
    if name.isEmpty then opcodeListing else opcodeListing.filter fun entry => entry.family.name == name

/-- Runs the report. -/
def opcodeReport (args : List String) : ToolRun :=
  match opcodeGrammar.read args with
  | .error .help => ⟨0, opcodeUsage, ""⟩
  | .error .usage => ⟨usageStatus, "", opcodeUsage⟩
  | .ok arguments =>
    let rows := opcodeRows (arguments.values.lookup "--family")
    if arguments.switches.contains "--json" then
      ⟨0, (JsonValue.array (rows.map OpcodeEntry.toJson)).print 0 ++ "\n", ""⟩
    else
      ⟨0, String.join (rows.map OpcodeEntry.line) ++ decimal rows.length ++ " opcodes\n", ""⟩

end Lift166
