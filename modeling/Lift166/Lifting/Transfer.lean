import Lift166.Lifting.Access
import Lift166.Variant

/-!
# Transfers of control

The lifted forms of jumps, calls, returns and traps, and of the conditions that guard them.
-/

namespace Lift166

open Il

/-- A flag expression, and the value it has where a condition holds. The trivial condition tests nothing. -/
def Condition.test? : Condition → Option (Expr × Nat)
  | uc => none
  | net => some (.quiet .or 1 (.flag .z) (.flag .e), 0)
  | z => some (.flag .z, 1)
  | nz => some (.flag .z, 0)
  | v => some (.flag .v, 1)
  | nv => some (.flag .v, 0)
  | n => some (.flag .n, 1)
  | nn => some (.flag .n, 0)
  | ult => some (.flag .c, 1)
  | uge => some (.flag .c, 0)
  | sgt => some (.quiet .or 1 (.quiet .xor 1 (.flag .n) (.flag .v)) (.flag .z), 0)
  | sle => some (.quiet .or 1 (.quiet .xor 1 (.flag .n) (.flag .v)) (.flag .z), 1)
  | slt => some (.quiet .xor 1 (.flag .n) (.flag .v), 1)
  | sge => some (.quiet .xor 1 (.flag .n) (.flag .v), 0)
  | ugt => some (.quiet .or 1 (.flag .c) (.flag .z), 0)
  | ule => some (.quiet .or 1 (.flag .c) (.flag .z), 1)

/-- Whether a condition holds, as an expression. -/
def Condition.expr? (cond : Condition) : Option Expr :=
  cond.test?.map fun (tested, expected) => .quiet .equal 1 tested (.const 1 expected)

/-- The expression of a numbered condition. -/
def Condition.exprOfNumber (number : Int) : Except ConditionError Expr := do
  let cond ← ofNumber number
  match cond.expr? with
  | some e => return e
  | none => throw (.nothingToTest cond)

/-- The condition that guards a branch, if anything is tested. -/
def Instruction.guard? (i : Instruction) : Option Expr :=
  i.cond.bind Condition.expr?

/-- An address in the segment of the branch itself, with its low word in a register. -/
def inOwnSegment (addr : Int) (r : Register) : Expr :=
  .quiet .or 3 (.const 3 (segmentBase addr)) (.quietUnary .zx 3 (.register 2 r))

/-- The pointer that an indirect branch goes through. -/
def Instruction.branchBase (i : Instruction) : Except InstructionError Register := do
  match ← i.operand .base with
  | .indirect base .. => return base
  | _ => throw .mismatch

/-- The target of a direct branch, as a constant. -/
def Instruction.branchTarget (i : Instruction) : Except InstructionError Expr := do
  match ← i.operand .target with
  | .target address => return .const 3 address
  | _ => throw .mismatch

/-- Jumps. -/
def liftJump (addr : Int) (i : Instruction) : Except InstructionError (List Stmt) :=
  if i.isIndirect then do
    let base ← i.branchBase
    return [.jump (inOwnSegment addr base)]
  else do
    let target ← i.branchTarget
    match i.guard? with
    | none => return [.jump target]
    | some cond => return [.ifElse cond 0 1, .label 0, .jump target, .label 1]

/-- Calls. -/
def liftCall (addr : Int) (i : Instruction) : Except InstructionError (List Stmt) :=
  if i.isIndirect then do
    let base ← i.branchBase
    return [.call (inOwnSegment addr base)]
  else do
    let target ← i.branchTarget
    match i.guard? with
    | none => return [.call target]
    | some cond => return [.ifElse cond 0 1, .label 0, .call target, .goto 1, .label 1]

/-- The statement that restores what a return takes off the stack beside the return address. -/
def restoreOnReturn (s : Store) (addr : Int) (i : Instruction) : Except InstructionError Stmt :=
  match i.operation with
  | some (.ret .rets) => .ok (.setRegister 2 .csp (.pop 2))
  | some (.ret .retp) => do
    match ← i.operand .reg with
    | .short code _ => return (Place.ofShort s addr code.val 2).write 2 (.pop 2) none
    | _ => throw .mismatch
  | _ => .ok (.setRegister 2 .psw (.pop 2))

/-- Returns. Where the variant keeps the return address in a register, the stack plays no part. -/
def liftRet (v : Variant) (s : Store) (addr : Int) (i : Instruction) : Except InstructionError (List Stmt) :=
  match v.linkRegister with
  | some link => .ok [.ret (.register 3 link)]
  | none =>
    if i.operation = some (.ret .ret) then .ok [.ret (.pop 2)]
    else do
      let restore ← restoreOnReturn s addr i
      return [.setTemp 2 0 (.pop 2), restore, .ret (.temp 2 0)]

/-- Traps. -/
def liftTrap (i : Instruction) : Except InstructionError (List Stmt) := do
  let target ← i.branchTarget
  return [.call target]

end Lift166
