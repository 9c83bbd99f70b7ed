import Lift166.Machine.Condition
import Lift166.Machine.Flag
import Lift166.Number.Literal
import Lift166.Operand

/-!
# Instructions

A decoded instruction keeps its operands under the slots they play a part in, its family, which chooses how it is
lifted, and an operation, which chooses among the members of the family. Instructions may also be put together by
hand, so every name can lie outside the known ones; what then cannot be made sense of is an `InstructionError`.
-/

namespace Lift166

/-- The part that an operand plays in its instruction. -/
inductive Slot
  | dst | src | bit | bitoff | mask | data | target | seg | base | reg | trap | ext | count | value
  /-- The condition, which is displayed like an operand. -/
  | cond
  /-- A slot known by name only. -/
  | named (name : String)
deriving DecidableEq

namespace Slot

/-- The slots with a meaning. -/
def known : List Slot :=
  [dst, src, bit, bitoff, mask, data, target, seg, base, reg, trap, ext, count, value, cond]

/-- The key of a slot. -/
def name : Slot → String
  | dst => "dst" | src => "src" | bit => "bit" | bitoff => "bitoff" | mask => "mask" | data => "data"
  | target => "target" | seg => "seg" | base => "base" | reg => "reg" | trap => "trap" | ext => "ext"
  | count => "count" | value => "value" | cond => "cond"
  | named name => name

/-- The slot of a key. -/
def ofName (text : String) : Slot :=
  match known.find? (fun s => s.name == text) with
  | some s => s
  | none => named text

end Slot

/-- A group of instructions that are lifted alike. -/
inductive Family
  | alu | cmpStep | unary | mul | div | shift | bit | bitLogic | bitField | bitJump | jump | call | ret | trap
  | stack | scxt | prior | move | moveExt | system | nop | ext
  /-- A family known by name only; it cannot be lifted. -/
  | named (name : String)
deriving DecidableEq

namespace Family

/-- The families with a meaning. -/
def known : List Family :=
  [alu, cmpStep, unary, mul, div, shift, bit, bitLogic, bitField, bitJump, jump, call, ret, trap, stack, scxt,
    prior, move, moveExt, system, nop, ext]

/-- The name of a family. -/
def name : Family → String
  | alu => "alu" | cmpStep => "cmp_step" | unary => "unary" | mul => "mul" | div => "div" | shift => "shift"
  | bit => "bit" | bitLogic => "bitlogic" | bitField => "bitfield" | bitJump => "bitjump" | jump => "jump"
  | call => "call" | ret => "ret" | trap => "trap" | stack => "stack" | scxt => "scxt" | prior => "prior"
  | move => "move" | moveExt => "move_ext" | system => "system" | nop => "nop" | ext => "ext"
  | named name => name

/-- The family of a name. -/
def ofName (text : String) : Family :=
  match known.find? (fun f => f.name == text) with
  | some f => f
  | none => named text

/-- The length in bytes of most members of a family. -/
def defaultLength : Family → Nat
  | bitLogic | bitField | bitJump | call | scxt | system => 4
  | _ => 2

/-- The flags that the members of a family write. -/
def flags : Family → Option FlagPolicy
  | alu | cmpStep | unary | mul | div | shift | bitLogic | bitField | prior => some .all
  | stack | move | moveExt => some .ezn
  | _ => none

end Family

/-- A two-operand arithmetic or logic operation. -/
inductive AluOp
  | add | addc | sub | subc | cmp | and | or | xor
deriving DecidableEq

/-- A kind of division. -/
inductive DivKind
  | div | divu | divl | divlu
deriving DecidableEq

/-- A kind of shift or rotation. -/
inductive ShiftKind
  | rol | ror | shl | shr | ashr
deriving DecidableEq

/-- An operation on two bits. -/
inductive BitLogicKind
  | bcmp | bmovn | bmov | bor | band | bxor
deriving DecidableEq

/-- A jump on a bit. -/
inductive BitJumpKind
  | jb | jnb | jbc | jnbs
deriving DecidableEq

/-- How a jump or call names its target. -/
inductive TransferKind
  | relative | absolute | segmented | indirect
deriving DecidableEq

/-- A kind of return. -/
inductive ReturnKind
  | ret | rets | retp | reti
deriving DecidableEq

/-- The member of its family that an instruction is. -/
inductive Operation
  /-- A two-operand operation. -/
  | alu (op : AluOp)
  /-- How far a compare-and-step moves its register. -/
  | step (amount : Int)
  /-- Two's-complement negation. -/
  | neg
  /-- Bitwise complement. -/
  | cpl
  /-- Signed multiplication. -/
  | signed
  /-- Unsigned multiplication. -/
  | unsigned
  /-- A division. -/
  | div (kind : DivKind)
  /-- A shift or rotation. -/
  | shift (kind : ShiftKind)
  /-- Clearing a bit. -/
  | clear
  /-- Setting a bit. -/
  | set
  /-- An operation on two bits. -/
  | bitLogic (kind : BitLogicKind)
  /-- A jump on a bit. -/
  | bitJump (kind : BitJumpKind)
  /-- A jump or call. -/
  | transfer (kind : TransferKind)
  /-- A return. -/
  | ret (kind : ReturnKind)
  /-- Pushing. -/
  | push
  /-- Popping. -/
  | pop
  /-- Execution does not go on. -/
  | noreturn
  /-- Sign extension. -/
  | sx
  /-- Zero extension. -/
  | zx
  /-- An operation known by name only. -/
  | named (name : String)
deriving DecidableEq

namespace Operation

/-- The operations with a meaning. -/
def known : List Operation :=
  [alu .add, alu .addc, alu .sub, alu .subc, alu .cmp, alu .and, alu .or, alu .xor,
    step 1, step 2, step (-1), step (-2), neg, cpl, signed, unsigned,
    div .div, div .divu, div .divl, div .divlu,
    shift .rol, shift .ror, shift .shl, shift .shr, shift .ashr, clear, set,
    bitLogic .bcmp, bitLogic .bmovn, bitLogic .bmov, bitLogic .bor, bitLogic .band, bitLogic .bxor,
    bitJump .jb, bitJump .jnb, bitJump .jbc, bitJump .jnbs,
    transfer .relative, transfer .absolute, transfer .segmented, transfer .indirect,
    ret .ret, ret .rets, ret .retp, ret .reti, push, pop, noreturn, sx, zx]

/-- The name of an operation. -/
def name : Operation → String
  | alu .add => "add" | alu .addc => "addc" | alu .sub => "sub" | alu .subc => "subc" | alu .cmp => "cmp"
  | alu .and => "and" | alu .or => "or" | alu .xor => "xor"
  | step amount => decimal amount
  | neg => "neg" | cpl => "cpl" | signed => "signed" | unsigned => "unsigned"
  | div .div => "div" | div .divu => "divu" | div .divl => "divl" | div .divlu => "divlu"
  | shift .rol => "rol" | shift .ror => "ror" | shift .shl => "shl" | shift .shr => "shr" | shift .ashr => "ashr"
  | clear => "clear" | set => "set"
  | bitLogic .bcmp => "bcmp" | bitLogic .bmovn => "bmovn" | bitLogic .bmov => "bmov" | bitLogic .bor => "bor"
  | bitLogic .band => "band" | bitLogic .bxor => "bxor"
  | bitJump .jb => "jb" | bitJump .jnb => "jnb" | bitJump .jbc => "jbc" | bitJump .jnbs => "jnbs"
  | transfer .relative => "relative" | transfer .absolute => "absolute" | transfer .segmented => "segmented"
  | transfer .indirect => "indirect"
  | ret .ret => "ret" | ret .rets => "rets" | ret .retp => "retp" | ret .reti => "reti"
  | push => "push" | pop => "pop" | noreturn => "noreturn" | sx => "sx" | zx => "zx"
  | named name => name

/-- The operation of a name. -/
def ofName (text : String) : Operation :=
  match known.find? (fun o => o.name == text) with
  | some o => o
  | none => named text

end Operation

/-- A decoded instruction. -/
structure Instruction where
  /-- The first byte of the encoding. -/
  opcode : Int
  /-- The mnemonic a listing shows. -/
  mnemonic : String
  /-- The family, which chooses how the instruction is lifted. -/
  family : Family
  /-- The length in bytes. -/
  length : Int
  /-- The operands by slot. -/
  binds : List (Slot × Operand)
  /-- The slots that a listing shows, in order. -/
  display : List Slot
  /-- The flags written. -/
  flags : Option FlagPolicy
  /-- The condition, for conditional branches. -/
  cond : Option Condition
  /-- The member of the family. -/
  operation : Option Operation
deriving DecidableEq

/-- Why an instruction cannot be made sense of. -/
inductive InstructionError
  /-- The family is not known. -/
  | unknownFamily (name : String)
  /-- No operand is bound to a slot that is needed. -/
  | missing (slot : Slot)
  /-- An operand, or the condition, is not of the sort that the instruction needs. -/
  | mismatch
  /-- The operation is no two-operand operation. -/
  | notAluOp (operation : Option Operation)
  /-- The destination has no width. -/
  | widthless
  /-- The operand has no value. -/
  | unreadable (op : Operand)
  /-- The operand cannot be assigned. -/
  | unwritable (op : Operand)
  /-- The operand has no place in a listing. -/
  | unlistable (slot : Slot) (op : Operand)
  /-- The step of a compare-and-step is no number. -/
  | badStep (cause : LiteralError)
deriving DecidableEq

/-- The wording of an instruction error. -/
def InstructionError.message : InstructionError → String
  | unknownFamily name => quoted name
  | missing slot => quoted slot.name
  | mismatch => ""
  | notAluOp operation => describeOption (operation.map fun o => quoted o.name) ++ " is not a valid AluOp"
  | widthless => "the destination has no width"
  | unreadable op => "Cannot read operand " ++ op.describe
  | unwritable op => "Cannot write operand " ++ op.describe
  | unlistable slot op => "Cannot render operand " ++ slot.name ++ "=" ++ op.describe
  | badStep cause => cause.message

namespace Instruction

/-- The operand in a slot, if there is one. -/
def operand? (i : Instruction) (slot : Slot) : Option Operand :=
  i.binds.lookup slot

/-- The operand in a slot that the instruction needs. -/
def operand (i : Instruction) (slot : Slot) : Except InstructionError Operand :=
  match i.operand? slot with
  | some op => .ok op
  | none => .error (.missing slot)

/-- Whether the instruction names its target through a register. -/
def isIndirect (i : Instruction) : Bool :=
  i.operation == some (.transfer .indirect)

/-- The condition to be tested, unless the branch is always taken. -/
def tested? (i : Instruction) : Option Condition :=
  match i.cond with
  | none | some .uc => none
  | some cond => some cond

end Instruction

end Lift166
