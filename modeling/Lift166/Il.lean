import Lift166.Instruction

/-!
# The intermediate language

What instructions are lifted to. An expression has a size in bytes and computes modulo that size; it may carry a
flag policy, by which its result updates flags. A statement changes a register, memory, a flag or the stack, or
transfers control. Labels are numbered from zero within the lifted form of one instruction.
-/

namespace Lift166.Il

/-- What a register expression names. -/
inductive Var
  /-- A register of the machine. -/
  | machine (register : Register)
  /-- A temporary, which lives within one instruction. -/
  | temp (index : Nat)
deriving DecidableEq

/-- The name of a variable. -/
def Var.name : Var → String
  | machine register => register.name
  | temp index => "TEMP" ++ decimal index

/-- An operation on one value. -/
inductive UnaryOp
  /-- Two's-complement negation. -/
  | neg
  /-- Bitwise complement. -/
  | not
  /-- Sign extension. -/
  | sx
  /-- Zero extension. -/
  | zx
  /-- The low part. -/
  | lowPart
deriving DecidableEq

/-- The name of an operation. -/
def UnaryOp.name : UnaryOp → String
  | neg => "NEG"
  | not => "NOT"
  | sx => "SX"
  | zx => "ZX"
  | lowPart => "LOW_PART"

/-- An operation on two values. -/
inductive BinaryOp
  | add | sub | and | or | xor
  /-- Shift to the left. -/
  | lsl
  /-- Shift to the right, zeros coming in. -/
  | lsr
  /-- Shift to the right, sign bits coming in. -/
  | asr
  | rol | ror
  /-- Signed product of double width. -/
  | mulsDp
  /-- Unsigned product of double width. -/
  | muluDp
  | divs | divu | mods | modu
  /-- Signed quotient of a dividend of double width. -/
  | divsDp
  /-- Unsigned quotient of a dividend of double width. -/
  | divuDp
  /-- Signed remainder of a dividend of double width. -/
  | modsDp
  /-- Unsigned remainder of a dividend of double width. -/
  | moduDp
  /-- One where the values are equal, zero elsewhere. -/
  | equal
deriving DecidableEq

/-- The name of an operation. -/
def BinaryOp.name : BinaryOp → String
  | add => "ADD" | sub => "SUB" | and => "AND" | or => "OR" | xor => "XOR"
  | lsl => "LSL" | lsr => "LSR" | asr => "ASR" | rol => "ROL" | ror => "ROR"
  | mulsDp => "MULS_DP" | muluDp => "MULU_DP"
  | divs => "DIVS" | divu => "DIVU" | mods => "MODS" | modu => "MODU"
  | divsDp => "DIVS_DP" | divuDp => "DIVU_DP" | modsDp => "MODS_DP" | moduDp => "MODU_DP"
  | equal => "CMP_E"

/-- An operation on two values and a carry. -/
inductive CarryOp
  /-- Addition with carry. -/
  | adc
  /-- Subtraction with borrow. -/
  | sbb
deriving DecidableEq

/-- The name of an operation. -/
def CarryOp.name : CarryOp → String
  | adc => "ADC"
  | sbb => "SBB"

/-- An expression. -/
inductive Expr
  /-- The value of a register or temporary. -/
  | reg (size : Nat) (var : Var)
  /-- A constant. -/
  | const (size : Nat) (value : Int)
  /-- A constant address. -/
  | pointer (size : Nat) (value : Int)
  /-- The value in memory. -/
  | load (size : Nat) (address : Expr)
  /-- The value of a flag. -/
  | flag (flag : Flag)
  /-- An operation on one value. -/
  | unary (op : UnaryOp) (size : Nat) (flags : Option FlagPolicy) (arg : Expr)
  /-- An operation on two values. -/
  | binary (op : BinaryOp) (size : Nat) (flags : Option FlagPolicy) (lhs rhs : Expr)
  /-- An operation on two values and a carry. -/
  | withCarry (op : CarryOp) (size : Nat) (flags : Option FlagPolicy) (lhs rhs carry : Expr)
  /-- The value taken off the stack. -/
  | pop (size : Nat)
  /-- A value that is not modelled. -/
  | unimplemented
deriving DecidableEq

/-- A statement. -/
inductive Stmt
  /-- Assigns a register or temporary. -/
  | setReg (size : Nat) (flags : Option FlagPolicy) (var : Var) (value : Expr)
  /-- Stores to memory. -/
  | store (size : Nat) (flags : Option FlagPolicy) (address value : Expr)
  /-- Assigns a flag. -/
  | setFlag (flag : Flag) (value : Expr)
  /-- Puts a value on the stack. -/
  | push (size : Nat) (value : Expr)
  /-- Computes a value for its effect on the flags. -/
  | eval (value : Expr)
  /-- Continues at an address. -/
  | jump (dest : Expr)
  /-- Calls an address. -/
  | call (dest : Expr)
  /-- Returns to an address. -/
  | ret (dest : Expr)
  /-- Execution does not go on. -/
  | noReturn
  /-- Nothing. -/
  | nop
  /-- An effect that is not modelled. -/
  | unimplemented
  /-- Continues at one of two labels. -/
  | ifElse (cond : Expr) (onTrue onFalse : Nat)
  /-- Continues at a label. -/
  | goto (label : Nat)
  /-- Marks the place of a label. -/
  | label (label : Nat)
deriving DecidableEq

/-! ## Shorthands without flags -/

/-- The value of a machine register. -/
def Expr.register (size : Nat) (r : Register) : Expr :=
  .reg size (.machine r)

/-- The value of a temporary. -/
def Expr.temp (size : Nat) (index : Nat) : Expr :=
  .reg size (.temp index)

/-- An operation on one value that leaves the flags alone. -/
def Expr.quietUnary (op : UnaryOp) (size : Nat) (arg : Expr) : Expr :=
  .unary op size none arg

/-- An operation on two values that leaves the flags alone. -/
def Expr.quiet (op : BinaryOp) (size : Nat) (lhs rhs : Expr) : Expr :=
  .binary op size none lhs rhs

/-- Assigns a machine register and leaves the flags alone. -/
def Stmt.setRegister (size : Nat) (r : Register) (value : Expr) : Stmt :=
  .setReg size none (.machine r) value

/-- Assigns a temporary. -/
def Stmt.setTemp (size : Nat) (index : Nat) (value : Expr) : Stmt :=
  .setReg size none (.temp index) value

end Lift166.Il
