import Lift166.Override.Record
import Lift166.Report.Arguments
import Lift166.Report.Basic
import Lift166.Report.Json

/-!
# The state report

Lists a saved table of overrides, as lines or as JSON.
-/

namespace Lift166

/-- The grammar of the report. -/
def stateGrammar : Grammar :=
  { switches := ["--json"], valued := [], takesOperand := true }

/-- How the report is used. -/
def stateUsage : String :=
  "usage: state [--json] path\n"

/-- An entry as a line. -/
def entryLine (addr : Int) (entry : Override) : String :=
  hexPadded 8 addr ++ "  " ++ leftAligned 20 ("|".intercalate entry.kinds.names) ++ " remaining="
    ++ decimal entry.remaining.val ++ " page=" ++ hex entry.page.val ++ " seg=" ++ hex entry.segment.val ++ " dpp="
    ++ ",".intercalate (entry.dpp.toList.map fun page => hex page.val) ++ "\n"

/-- An entry as a record. -/
def entryJson (addr : Int) (entry : Override) : JsonValue :=
  .object [("address", .int addr), ("kind", .int entry.kinds.toByte), ("remaining", .int entry.remaining.val),
    ("page10", .int entry.page.val), ("segment8", .int entry.segment.val),
    ("dpp", .array (entry.dpp.toList.map fun page => .int page.val))]

/-- What the report needs before it can run. -/
inductive StateRequest
  /-- Nothing: it has already ended. -/
  | done (run : ToolRun)
  /-- The contents of a file. -/
  | file (path : String) (json : Bool)
deriving DecidableEq

/-- Reads the arguments. -/
def stateRequest (args : List String) : StateRequest :=
  match stateGrammar.read args with
  | .error .help => .done ⟨0, stateUsage, ""⟩
  | .error .usage => .done ⟨usageStatus, "", stateUsage⟩
  | .ok arguments => .file (arguments.operand.getD "") (arguments.switches.contains "--json")

/-- Reports on the contents of a file. -/
def stateReport (bytes : List UInt8) (json : Bool) : ToolRun :=
  match (Store.empty .zero).deserialize bytes with
  | .error e => ⟨1, "", "error: " ++ e.message ++ "\n"⟩
  | .ok s =>
    let entries := s.table.toList
    if json then
      ⟨0, (JsonValue.array (entries.map fun (addr, entry) => entryJson addr entry)).print 0 ++ "\n", ""⟩
    else
      ⟨0, String.join (entries.map fun (addr, entry) => entryLine addr entry) ++ decimal s.table.size
        ++ " records\n", ""⟩

end Lift166
