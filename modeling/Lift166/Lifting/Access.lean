import Lift166.Il
import Lift166.Place

/-!
# Access to operands

How the value of an operand is read and written. Direct operands have an address that is known when the
instruction is lifted; a register-indirect operand has one that is computed from its base at run time, where a
segment override comes before a page override.
-/

namespace Lift166

open Il

/-- The word at a special function register. -/
def SpecialRegister.load (r : SpecialRegister) : Expr :=
  .load 2 (.pointer 3 r.address)

/-- Stores a word to a special function register. -/
def SpecialRegister.store (r : SpecialRegister) (value : Expr) : Stmt :=
  .store 2 none (.pointer 3 r.address) value

/-- The base of a register-indirect operand, with its displacement if that is not zero. -/
def pointerBase (base : Register) (disp : Int) : Expr :=
  if disp = 0 then .register 2 base
  else .quiet .add 2 (.register 2 base) (.const 2 disp)

/-- The low fourteen bits of a pointer. -/
def pageOffset (pointer : Expr) : Expr :=
  .quiet .and 2 pointer (.const 2 0x3FFF)

/-- The data page pointer that the upper two bits of a pointer select at run time. -/
def selectedPage (pointer : Expr) : Expr :=
  let slot := Expr.quiet .lsr 2 pointer (.const 1 14)
  .load 2 (.quiet .add 3 (.pointer 3 SpecialRegister.dpp0.address) (.quiet .lsl 2 slot (.const 1 1)))

/-- The physical address that a pointer stands for at an instruction. -/
def indirectAddress (s : Store) (addr : Int) (base : Register) (disp : Int) : Expr :=
  let pointer := pointerBase base disp
  let entry := s.get addr
  if entry.kinds.segment then .quiet .or 3 (.const 3 (entry.segment.val * 0x10000 : Nat)) pointer
  else if entry.kinds.page then
    .quiet .or 3 (.const 3 (entry.page.val * 0x4000 : Nat)) (pageOffset pointer)
  else .quiet .or 3 (.quiet .lsl 3 (selectedPage pointer) (.const 1 14)) (pageOffset pointer)

/-- The displacement that an indirect operand uses: only one of its modes has one. -/
def IndirectMode.displacement (mode : IndirectMode) (disp : Int) : Int :=
  match mode with
  | .disp => disp
  | _ => 0

namespace Place

/-- The value at a place. A fixed word reads as its constant, cut to the width. -/
def read (place : Place) (width : Nat) : Expr :=
  match place with
  | gpr r => .register width r
  | sfr address =>
    match Lift166.fixedWord? address with
    | some value => .const width (value % 1 <<< (8 * width) : Nat)
    | none => .load width (.pointer 3 address)

/-- Writes a place. Writing a fixed word does nothing. -/
def write (place : Place) (width : Nat) (value : Expr) (flags : Option FlagPolicy) : Stmt :=
  match place with
  | gpr r => .setReg width flags (.machine r) value
  | sfr address =>
    match Lift166.fixedWord? address with
    | some _ => .nop
    | none => .store width flags (.pointer 3 address) value

end Place

namespace Operand

/-- The value of an operand of the instruction at an address. -/
def read (s : Store) (addr : Int) : Operand → Except InstructionError Expr
  | reg r width => .ok (.register width r)
  | short code width => .ok ((Place.ofShort s addr code.val width).read width)
  | imm value width => .ok (.const width value.val)
  | mem raw width => .ok (.load width (.pointer 3 ((s.regime addr).physical raw)))
  | indirect base mode width disp =>
    .ok (.load width (indirectAddress s addr base (mode.displacement disp)))
  | op => .error (.unreadable op)

/-- Writes an operand of the instruction at an address. -/
def write (s : Store) (addr : Int) (value : Expr) (flags : Option FlagPolicy) :
    Operand → Except InstructionError Stmt
  | reg r width => .ok (.setReg width flags (.machine r) value)
  | short code width => .ok ((Place.ofShort s addr code.val width).write width value flags)
  | mem raw width => .ok (.store width flags (.pointer 3 ((s.regime addr).physical raw)) value)
  | indirect base mode width disp =>
    .ok (.store width flags (indirectAddress s addr base (mode.displacement disp)) value)
  | op => .error (.unwritable op)

/-- Steps the base of an indirect operand, if it is stepped in the given mode. -/
def step (mode : IndirectMode) : Operand → List Stmt
  | indirect base m width _ =>
    if m = mode then
      let op : BinaryOp := if mode = .preDec then .sub else .add
      [.setRegister 2 base (.quiet op 2 (.register 2 base) (.const 2 width))]
    else []
  | _ => []

end Operand

end Lift166
