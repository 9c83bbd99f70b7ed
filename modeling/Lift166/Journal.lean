import Lift166.Encoding.Window
import Lift166.Instruction
import Lift166.Override.Store

/-!
# The journal

What the library reports while it works. An event is a fact; its level, its channel and its wording are derived
from it.
-/

namespace Lift166

/-- How much an event matters. -/
inductive Level
  | debug | info | error
  /-- An error that the host itself is told of. -/
  | hostError
deriving DecidableEq

/-- The name of a level. -/
def Level.name : Level → String
  | debug => "DEBUG"
  | info => "INFO"
  | error => "ERROR"
  | hostError => "LOG_ERROR"

/-- A question that the surface of the library answers. -/
inductive Query
  | info | text | lift
deriving DecidableEq

/-- The name of a query. -/
def Query.name : Query → String
  | info => "get_instruction_info"
  | text => "get_instruction_text"
  | lift => "get_instruction_low_level_il"

/-- Something worth reporting. -/
inductive Event
  /-- Bytes did not decode. -/
  | undecodable (variant : String) (addr : Int) (cause : DecodeError)
  /-- A query failed. -/
  | queryFailed (variant : String) (query : Query) (addr : Int) (message : String)
  /-- An instruction is about to be lifted. -/
  | lifting (addr : Int) (instruction : Instruction)
  /-- An extension instruction has placed its override. -/
  | extended (mnemonic : String) (addr next count : Int)
  /-- A saved table has been read. -/
  | recordsRead (count : Nat)
  /-- A page has been placed by hand. -/
  | pageApplied (page : Page) (addr : Int)
  /-- A segment has been placed by hand. -/
  | segmentApplied (segment : Segment) (addr : Int)
  /-- The extended register bank has been placed by hand. -/
  | bankApplied (addr : Int)
  /-- Data page pointers have been placed by hand. -/
  | dppApplied (dpp : DppVector) (count : Nat) (start stop : Int)
  /-- The table has been saved with a view. -/
  | mapSaved (count : Nat)
  /-- A table that was saved with a view has been restored. -/
  | mapLoaded (count : Nat)
  /-- No table was saved with a view. -/
  | mapMissing
  /-- A table that was saved with a view cannot be read. -/
  | mapRejected (cause : StoreError)
deriving DecidableEq

/-- The operands of an instruction by slot, as a trace shows them. -/
def describeBinds (binds : List (Slot × Operand)) : String :=
  "\x7b" ++ ", ".intercalate (binds.map fun (slot, op) => quoted slot.name ++ ": " ++ op.describe) ++ "\x7d"

namespace Event

/-- The level of an event. -/
def level : Event → Level
  | undecodable .. | lifting .. | extended .. | recordsRead _ => .debug
  | queryFailed .. => .hostError
  | pageApplied .. | segmentApplied .. | bankApplied _ | dppApplied .. | mapSaved _ | mapLoaded _ | mapMissing =>
    .info
  | mapRejected _ => .error

/-- The channel of an event. -/
def channel : Event → String
  | undecodable .. => "c166.arch"
  | queryFailed .. => "binaryninja"
  | lifting .. | extended .. => "c166.lift"
  | recordsRead _ => "c166.state"
  | pageApplied .. | segmentApplied .. | bankApplied _ | dppApplied .. | mapSaved _ | mapLoaded _ | mapMissing
  | mapRejected _ => "c166.commands"

/-- The wording of an event. -/
def message : Event → String
  | undecodable variant addr cause => variant ++ ": cannot decode at " ++ hex addr ++ ": " ++ cause.message
  | queryFailed variant query addr text =>
    variant ++ "." ++ query.name ++ "() failed at " ++ hex addr ++ ": " ++ text
  | lifting addr i => "lift " ++ hexPadded 8 addr ++ " " ++ i.mnemonic ++ " " ++ describeBinds i.binds
  | extended mnemonic addr next count =>
    mnemonic ++ " at " ++ hex addr ++ " overrides " ++ hex next ++ " for " ++ decimal count ++ " instruction(s)"
  | recordsRead count => "Loaded " ++ decimal count ++ " extension state records"
  | pageApplied page addr => "EXTP #" ++ hex page.val ++ " applied at " ++ hex addr
  | segmentApplied segment addr => "EXTS #" ++ hex segment.val ++ " applied at " ++ hex addr
  | bankApplied addr => "EXTR applied at " ++ hex addr
  | dppApplied dpp count start stop =>
    "DPP (" ++ ", ".intercalate (dpp.toList.map fun page => hex page.val) ++ ") applied to " ++ decimal count
      ++ " instructions in " ++ hex start ++ ".." ++ hex stop
  | mapSaved count => "Saved " ++ decimal count ++ " extension state records"
  | mapLoaded count => "Loaded " ++ decimal count ++ " extension state records"
  | mapMissing => "No saved extension state in this view"
  | mapRejected cause => "Ignoring saved extension state: " ++ cause.message

end Event

/-- What an operation leaves behind: its answer or the cause of its failure, the store as it stands afterwards,
and the events on the way. -/
structure Outcome (ε α : Type) where
  /-- The answer. -/
  answer : Except ε α
  /-- The store afterwards, on failure too. -/
  store : Store
  /-- The events, in order. -/
  events : List Event

end Lift166
