import Lift166.Lifting.Access

/-!
# Arithmetic and logic

The lifted forms of two-operand operations, compare-and-step, one-operand arithmetic, multiplication, division,
shifts and normalisation. Products and quotients go to the register pair `MDH`, `MDL`.
-/

namespace Lift166

open Il

/-- The operation of a two-operand instruction. -/
def Instruction.aluOp (i : Instruction) : Except InstructionError AluOp :=
  match i.operation with
  | some (.alu op) => .ok op
  | operation => .error (.notAluOp operation)

/-- The register in a slot, with its width. -/
def Instruction.register (i : Instruction) (slot : Slot) : Except InstructionError (Register × Nat) :=
  match i.operand slot with
  | .ok (.reg r width) => .ok (r, width)
  | .ok _ => .error .mismatch
  | .error e => .error e

/-- The result of a two-operand operation. Comparing subtracts. -/
def AluOp.result (op : AluOp) (width : Nat) (lhs rhs : Expr) (flags : Option FlagPolicy) : Expr :=
  match op with
  | add => .binary .add width flags lhs rhs
  | addc => .withCarry .adc width flags lhs rhs (.flag .c)
  | sub | cmp => .binary .sub width flags lhs rhs
  | subc => .withCarry .sbb width flags lhs rhs (.flag .c)
  | and => .binary .and width flags lhs rhs
  | or => .binary .or width flags lhs rhs
  | xor => .binary .xor width flags lhs rhs

/-- Two-operand operations. -/
def liftAlu (s : Store) (addr : Int) (i : Instruction) : Except InstructionError (List Stmt) := do
  let dst ← i.operand .dst
  let src ← i.operand .src
  let op ← i.aluOp
  match dst.width? with
  | none => throw .widthless
  | some width =>
    let lhs ← dst.read s addr
    let rhs ← src.read s addr
    let result := op.result width lhs rhs i.flags
    match op with
    | .cmp => return .eval result :: src.step .postInc
    | _ =>
      let stmt ← dst.write s addr result none
      return stmt :: src.step .postInc

/-- How far a compare-and-step moves its register. No operation, or one without a name, does not move it. -/
def Instruction.stepAmount (i : Instruction) : Except InstructionError Int :=
  match i.operation with
  | none => .ok 0
  | some (.step amount) => .ok amount
  | some operation =>
    if operation.name.isEmpty then .ok 0
    else
      match readLiteral .decimal operation.name.toList with
      | .ok amount => .ok amount
      | .error e => .error (.badStep e)

/-- Compare-and-step. -/
def liftCmpStep (s : Store) (addr : Int) (i : Instruction) : Except InstructionError (List Stmt) := do
  let dst ← i.operand .dst
  let src ← i.operand .src
  match dst with
  | .reg r _ =>
    let rhs ← src.read s addr
    let amount ← i.stepAmount
    let stepped :=
      if 0 < amount then Expr.quiet .add 2 (.register 2 r) (.const 2 amount)
      else .quiet .sub 2 (.register 2 r) (.const 2 (-amount))
    return [.eval (.binary .sub 2 i.flags (.register 2 r) rhs), .setRegister 2 r stepped]
  | _ => throw .mismatch

/-- Negation and complement. -/
def liftUnary (i : Instruction) : Except InstructionError (List Stmt) := do
  let (r, width) ← i.register .dst
  let op : UnaryOp := if i.operation = some .neg then .neg else .not
  return [.setRegister width r (.unary op width i.flags (.register width r))]

/-- Multiplication. -/
def liftMul (i : Instruction) : Except InstructionError (List Stmt) := do
  let dst ← i.operand .dst
  let src ← i.operand .src
  match dst, src with
  | .reg lhs _, .reg rhs _ =>
    let op : BinaryOp := if i.operation = some .signed then .mulsDp else .muluDp
    return [.setTemp 4 0 (.binary op 4 i.flags (.register 2 lhs) (.register 2 rhs)),
      SpecialRegister.mdl.store (.quietUnary .lowPart 2 (.temp 4 0)),
      SpecialRegister.mdh.store (.quietUnary .lowPart 2 (.quiet .lsr 4 (.temp 4 0) (.const 1 16)))]
  | _, _ => throw .mismatch

/-- The dividend of double width. -/
def longDividend : Expr :=
  .quiet .or 4 (.quiet .lsl 4 (.quietUnary .zx 4 SpecialRegister.mdh.load) (.const 1 16))
    (.quietUnary .zx 4 SpecialRegister.mdl.load)

/-- The operations that give quotient and remainder, and the dividend. -/
def divisionOf : Option Operation → BinaryOp × BinaryOp × Expr
  | some (.div .div) => (.divs, .mods, SpecialRegister.mdl.load)
  | some (.div .divu) => (.divu, .modu, SpecialRegister.mdl.load)
  | some (.div .divl) => (.divsDp, .modsDp, longDividend)
  | _ => (.divuDp, .moduDp, longDividend)

/-- Division. Both results are computed before either is stored, since both read the old dividend. -/
def liftDiv (i : Instruction) : Except InstructionError (List Stmt) := do
  let (r, _) ← i.register .src
  let (quotient, remainder, dividend) := divisionOf i.operation
  return [.setTemp 2 0 (.binary quotient 2 i.flags dividend (.register 2 r)),
    .setTemp 2 1 (.quiet remainder 2 dividend (.register 2 r)),
    SpecialRegister.mdl.store (.temp 2 0),
    SpecialRegister.mdh.store (.temp 2 1)]

/-- The amount of a shift: an immediate as it is, the low four bits of anything else. -/
def shiftAmount (s : Store) (addr : Int) (count : Operand) : Except InstructionError Expr :=
  match count with
  | .imm value _ => .ok (.const 1 value.val)
  | count => (count.read s addr).map fun amount => .quiet .and 2 amount (.const 2 0xF)

/-- The operation of a shift. -/
def shiftOp : Option Operation → BinaryOp
  | some (.shift .shl) => .lsl
  | some (.shift .shr) => .lsr
  | some (.shift .ashr) => .asr
  | some (.shift .rol) => .rol
  | _ => .ror

/-- Shifts and rotations. -/
def liftShift (s : Store) (addr : Int) (i : Instruction) : Except InstructionError (List Stmt) := do
  let dst ← i.operand .dst
  let count ← i.operand .src
  match dst with
  | .reg r _ =>
    let amount ← shiftAmount s addr count
    return [.setRegister 2 r (.binary (shiftOp i.operation) 2 i.flags (.register 2 r) amount)]
  | _ => throw .mismatch

/-- Normalisation, whose result is not modelled. -/
def liftPrior (i : Instruction) : Except InstructionError (List Stmt) := do
  let (r, _) ← i.register .dst
  return [.setRegister 2 r .unimplemented]

end Lift166
