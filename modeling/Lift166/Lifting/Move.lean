import Lift166.Lifting.Access
import Lift166.Variant

/-!
# Moves and the stack

The lifted forms of moves, pushes and pops. A word move that steps the variant's stack pointer the way the stack
grows is a push or a pop.
-/

namespace Lift166

open Il

/-- Whether an operand is the top of the stack, stepped in the given mode. -/
def Operand.isStackSlot (v : Variant) (mode : IndirectMode) : Operand → Bool
  | .indirect base m width _ => m == mode && width == 2 && base == v.stackPointer
  | _ => false

/-- The value that a move transfers. -/
def movedValue (v : Variant) (s : Store) (addr : Int) (src : Operand) : Except InstructionError Expr :=
  if src.isStackSlot v .postInc then .ok (.pop 2) else src.read s addr

/-- Moves. -/
def liftMove (v : Variant) (s : Store) (addr : Int) (i : Instruction) : Except InstructionError (List Stmt) := do
  let dst ← i.operand .dst
  let src ← i.operand .src
  let value ← movedValue v s addr src
  if dst.isStackSlot v .preDec then return [.push 2 value]
  else
    let stmt ← dst.write s addr value i.flags
    let srcStep := if src.isStackSlot v .postInc then [] else src.step .postInc
    return dst.step .preDec ++ stmt :: (srcStep ++ dst.step .postInc)

/-- Moves that extend a byte to a word. -/
def liftMoveExt (s : Store) (addr : Int) (i : Instruction) : Except InstructionError (List Stmt) := do
  let dst ← i.operand .dst
  let src ← i.operand .src
  let byte ← src.read s addr
  let op : UnaryOp := if i.operation = some .sx then .sx else .zx
  let stmt ← dst.write s addr (.quietUnary op 2 byte) i.flags
  return [stmt]

/-- Pushes and pops. -/
def liftStack (s : Store) (addr : Int) (i : Instruction) : Except InstructionError (List Stmt) := do
  match ← i.operand .reg with
  | .short code _ =>
    let place := Place.ofShort s addr code.val 2
    if i.operation = some .push then return [.push 2 (place.read 2)]
    else return [place.write 2 (.pop 2) i.flags]
  | _ => throw .mismatch

/-- Pushing a register and loading it anew. -/
def liftScxt (s : Store) (addr : Int) (i : Instruction) : Except InstructionError (List Stmt) := do
  let dst ← i.operand .dst
  let src ← i.operand .src
  match dst with
  | .short code _ =>
    let value ← src.read s addr
    let stmt ← dst.write s addr value none
    return [.push 2 ((Place.ofShort s addr code.val 2).read 2), stmt]
  | _ => throw .mismatch

end Lift166
