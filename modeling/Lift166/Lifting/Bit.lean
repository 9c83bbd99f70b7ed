import Lift166.Lifting.Access

/-!
# Bit instructions

The lifted forms of setting, clearing, moving, combining and comparing single bits, and of jumps on a bit. A bit is
changed by storing the word it is in.
-/

namespace Lift166

open Il

/-- The word with one bit set. -/
def bitMask (pos : Fin 16) : Nat :=
  1 <<< pos.val

/-- The word with one bit clear. -/
def bitHole (pos : Fin 16) : Nat :=
  0xFFFF - bitMask pos

/-- The word that holds a bit. -/
def bitWordOf (s : Store) (addr offset : Int) : Expr :=
  (Place.ofBitOffset s addr offset).read 2

/-- The value of a bit. -/
def bitValueOf (s : Store) (addr offset : Int) (pos : Fin 16) : Expr :=
  .quiet .and 2 (.quiet .lsr 2 (bitWordOf s addr offset) (.const 1 pos.val)) (.const 2 1)

/-- Sets or clears a bit. -/
def assignBit (s : Store) (addr offset : Int) (pos : Fin 16) (value : Bool) : Stmt :=
  let place := Place.ofBitOffset s addr offset
  let word := place.read 2
  let result :=
    if value then Expr.quiet .or 2 word (.const 2 (bitMask pos))
    else .quiet .and 2 word (.const 2 (bitHole pos))
  place.write 2 result none

/-- Setting and clearing. -/
def liftBit (s : Store) (addr : Int) (i : Instruction) : Except InstructionError (List Stmt) := do
  match ← i.operand .bit with
  | .bit offset pos => return [assignBit s addr offset pos (i.operation = some .set)]
  | _ => throw .mismatch

/-- Comparing two bits, by setting each flag. -/
def compareBits (dst src : Expr) : List Stmt :=
  [.setFlag .e (.const 1 0),
    .setFlag .z (.quiet .equal 2 (.quiet .or 2 src dst) (.const 2 0)),
    .setFlag .v (.quiet .or 2 src dst),
    .setFlag .c (.quiet .and 2 src dst),
    .setFlag .n (.quiet .xor 2 src dst)]

/-- The destination word after a bit has been combined into it. -/
def combineBit (operation : Option Operation) (word bit : Expr) (pos : Fin 16) : Expr :=
  let placed := fun (b : Expr) => Expr.quiet .lsl 2 b (.const 1 pos.val)
  let hole := Expr.const 2 (bitHole pos)
  match operation with
  | some (.bitLogic .bmov) => .quiet .or 2 (.quiet .and 2 word hole) (placed bit)
  | some (.bitLogic .bmovn) => .quiet .or 2 (.quiet .and 2 word hole) (placed (.quiet .xor 2 bit (.const 2 1)))
  | some (.bitLogic .band) => .quiet .and 2 word (.quiet .or 2 hole (placed bit))
  | some (.bitLogic .bor) => .quiet .or 2 word (placed bit)
  | _ => .quiet .xor 2 word (placed bit)

/-- Moving, combining and comparing. -/
def liftBitLogic (s : Store) (addr : Int) (i : Instruction) : Except InstructionError (List Stmt) := do
  let dst ← i.operand .dst
  let src ← i.operand .src
  match dst, src with
  | .bit dstOffset dstPos, .bit srcOffset srcPos =>
    let bit := bitValueOf s addr srcOffset srcPos
    if i.operation = some (.bitLogic .bcmp) then
      return compareBits (bitValueOf s addr dstOffset dstPos) bit
    else
      let place := Place.ofBitOffset s addr dstOffset
      return [place.write 2 (combineBit i.operation (place.read 2) bit dstPos) i.flags]
  | _, _ => throw .mismatch

/-- What a jump on a bit does to the bit when it is taken. -/
def bitJumpEffect (s : Store) (addr offset : Int) (pos : Fin 16) : Option Operation → List Stmt
  | some (.bitJump .jbc) => [assignBit s addr offset pos false]
  | some (.bitJump .jnbs) => [assignBit s addr offset pos true]
  | _ => []

/-- Whether a jump on a bit is taken when the bit is set. -/
def jumpsOnSet : Option Operation → Bool
  | some (.bitJump .jb) | some (.bitJump .jbc) => true
  | _ => false

/-- Jumps on a bit. -/
def liftBitJump (s : Store) (addr : Int) (i : Instruction) : Except InstructionError (List Stmt) := do
  let bit ← i.operand .bit
  let target ← i.operand .target
  match bit, target with
  | .bit offset pos, .target address =>
    let tested := Expr.quiet .and 2 (bitWordOf s addr offset) (.const 2 (bitMask pos))
    let expected := Expr.const 2 (if jumpsOnSet i.operation then bitMask pos else 0 : Nat)
    return .ifElse (.quiet .equal 2 tested expected) 0 1 :: .label 0
      :: (bitJumpEffect s addr offset pos i.operation ++ [.jump (.const 3 address), .label 1])
  | _, _ => throw .mismatch

end Lift166
