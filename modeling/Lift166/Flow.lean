import Lift166.Instruction

/-!
# Control flow

How control leaves an instruction. A host builds its control-flow graph from the list of branches; the shape
behind that list also tells calls from jumps where the list does not.
-/

namespace Lift166

/-- How control leaves an instruction. -/
inductive Flow
  /-- To the next instruction. -/
  | fallthrough
  /-- To a target. -/
  | jump (target : Int)
  /-- To a target or to the next instruction; `call` marks a conditional call. -/
  | branch (target next : Int) (call : Bool)
  /-- To a target that returns. -/
  | call (target : Int)
  /-- Back to the caller. -/
  | ret
  /-- To a target known at run time only; `call` marks a call. -/
  | indirect (call : Bool)
  /-- Nowhere. -/
  | noReturn
  /-- To a trap handler. -/
  | trap (target : Int)
deriving DecidableEq

/-- A host's word for a branch. -/
inductive BranchKind
  | unconditional | onTrue | onFalse | callDestination | functionReturn | unresolved | exception
deriving DecidableEq

/-- The name of a branch kind. -/
def BranchKind.name : BranchKind → String
  | unconditional => "UnconditionalBranch"
  | onTrue => "TrueBranch"
  | onFalse => "FalseBranch"
  | callDestination => "CallDestination"
  | functionReturn => "FunctionReturn"
  | unresolved => "UnresolvedBranch"
  | exception => "ExceptionBranch"

namespace Flow

/-- The branches that a host is told of. -/
def branches : Flow → List (BranchKind × Option Int)
  | fallthrough => []
  | jump target => [(.unconditional, some target)]
  | branch target next _ => [(.onTrue, some target), (.onFalse, some next)]
  | call target | trap target => [(.callDestination, some target)]
  | ret => [(.functionReturn, none)]
  | indirect _ => [(.unresolved, none)]
  | noReturn => [(.exception, none)]

/-- The target operand of a branch. -/
def targetOf (i : Instruction) : Except InstructionError Int :=
  match i.operand? .target with
  | some (.target address) => .ok address
  | _ => .error .mismatch

/-- How control leaves the instruction at an address. -/
def ofInstruction (i : Instruction) (addr : Int) : Except InstructionError Flow :=
  let next := addr + i.length
  match i.family with
  | .jump =>
    if i.isIndirect then .ok (indirect false)
    else (targetOf i).map fun target =>
      match i.tested? with
      | none => jump target
      | some _ => branch target next false
  | .bitJump => (targetOf i).map fun target => branch target next false
  | .call =>
    if i.isIndirect then .ok (indirect true)
    else (targetOf i).map fun target =>
      match i.tested? with
      | none => call target
      | some _ => branch target next true
  | .ret => .ok ret
  | .trap => (targetOf i).map trap
  | .system => .ok (if i.operation = some .noreturn then noReturn else fallthrough)
  | _ => .ok fallthrough

end Flow

end Lift166
