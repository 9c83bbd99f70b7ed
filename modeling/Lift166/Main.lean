import Lift166.Report.Opcodes
import Lift166.Report.State

/-!
# The command line

Two tools: `opcodes` lists the opcode table, and `state` lists a saved table of overrides.
-/

namespace Lift166

/-- Prints what a tool leaves behind and ends with its status. -/
def ToolRun.finish (run : ToolRun) : IO UInt32 := do
  (← IO.getStdout).putStr run.output
  (← IO.getStderr).putStr run.errors
  return UInt32.ofNat run.status

end Lift166

open Lift166 in
/-- Runs the tool that the first argument names. -/
def main (args : List String) : IO UInt32 := do
  match args with
  | "opcodes" :: rest => (opcodeReport rest).finish
  | "state" :: rest =>
    match stateRequest rest with
    | .done run => run.finish
    | .file path json =>
      let bytes ← IO.FS.readBinFile path
      (stateReport bytes.toList json).finish
  | _ => ToolRun.finish ⟨usageStatus, "", opcodeUsage ++ stateUsage⟩
