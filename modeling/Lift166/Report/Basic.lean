/-!
# Reports

A report is a run of a command-line tool: what it prints, and how it ends.
-/

namespace Lift166

/-- What a run of a tool leaves behind. -/
structure ToolRun where
  /-- The exit status. -/
  status : Nat
  /-- What is printed. -/
  output : String
  /-- What is printed about errors. -/
  errors : String
deriving DecidableEq

/-- The status of a run whose arguments do not fit. -/
def usageStatus : Nat := 2

end Lift166
