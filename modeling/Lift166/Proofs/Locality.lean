import Lift166.Lifting.Lift
import Lift166.Listing

/-!
# What an instruction sees of the store

The lifted form and the line of an instruction are built from the override at its own address and from the default
data page pointers. Nothing else in the store is looked at: two stores that agree on these two give the same lifted
form and the same line, whatever they hold at other addresses.
-/

namespace Lift166

open Il

/-- Two stores look the same from the instruction at an address. -/
structure Store.AgreeAt (s t : Store) (addr : Int) : Prop where
  /-- The same override is in force there. -/
  entry : s.get addr = t.get addr
  /-- The data page pointers after reset are the same. -/
  pointers : s.defaultDpp = t.defaultDpp

namespace Store.AgreeAt

variable {s t : Store} {addr : Int}

/-- The table matters only through its look-up at the address. -/
theorem of_get? (hentry : s.table.get? addr = t.table.get? addr) (hpointers : s.defaultDpp = t.defaultDpp) :
    s.AgreeAt t addr := by
  refine ⟨?_, hpointers⟩
  unfold Store.get
  rw [hentry]

/-! ## Where operands are -/

theorem hasRegisterBank (h : s.AgreeAt t addr) : s.hasRegisterBank addr = t.hasRegisterBank addr := by
  unfold Store.hasRegisterBank
  rw [h.entry]

theorem regime (h : s.AgreeAt t addr) : s.regime addr = t.regime addr := by
  unfold Store.regime
  rw [h.entry, h.pointers]

theorem ofShort (h : s.AgreeAt t addr) (code : Int) (width : Nat) :
    Place.ofShort s addr code width = Place.ofShort t addr code width := by
  unfold Place.ofShort
  rw [h.hasRegisterBank]

theorem ofBitOffset (h : s.AgreeAt t addr) (offset : Int) :
    Place.ofBitOffset s addr offset = Place.ofBitOffset t addr offset := by
  unfold Place.ofBitOffset
  rw [h.hasRegisterBank]

theorem indirectAddress (h : s.AgreeAt t addr) (base : Register) (disp : Int) :
    indirectAddress s addr base disp = Lift166.indirectAddress t addr base disp := by
  unfold Lift166.indirectAddress
  rw [h.entry]

theorem read (h : s.AgreeAt t addr) (op : Operand) : op.read s addr = op.read t addr := by
  cases op with
  | short code width => simp only [Operand.read, h.ofShort]
  | mem raw width => simp only [Operand.read, h.regime]
  | indirect base mode width disp => simp only [Operand.read, h.indirectAddress]
  | _ => rfl

theorem write (h : s.AgreeAt t addr) (value : Expr) (flags : Option FlagPolicy) (op : Operand) :
    op.write s addr value flags = op.write t addr value flags := by
  cases op with
  | short code width => simp only [Operand.write, h.ofShort]
  | mem raw width => simp only [Operand.write, h.regime]
  | indirect base mode width disp => simp only [Operand.write, h.indirectAddress]
  | _ => rfl

/-! ## The lifted form -/

theorem shiftAmount (h : s.AgreeAt t addr) (count : Operand) :
    shiftAmount s addr count = Lift166.shiftAmount t addr count := by
  unfold Lift166.shiftAmount
  split
  · rfl
  · rw [h.read]

theorem movedValue (h : s.AgreeAt t addr) (v : Variant) (src : Operand) :
    movedValue v s addr src = Lift166.movedValue v t addr src := by
  unfold Lift166.movedValue
  rw [h.read]

theorem bitWordOf (h : s.AgreeAt t addr) (offset : Int) :
    bitWordOf s addr offset = Lift166.bitWordOf t addr offset := by
  unfold Lift166.bitWordOf
  rw [h.ofBitOffset]

theorem bitValueOf (h : s.AgreeAt t addr) (offset : Int) (pos : Fin 16) :
    bitValueOf s addr offset pos = Lift166.bitValueOf t addr offset pos := by
  unfold Lift166.bitValueOf
  rw [h.bitWordOf]

theorem assignBit (h : s.AgreeAt t addr) (offset : Int) (pos : Fin 16) (value : Bool) :
    assignBit s addr offset pos value = Lift166.assignBit t addr offset pos value := by
  unfold Lift166.assignBit
  rw [h.ofBitOffset]

theorem bitJumpEffect (h : s.AgreeAt t addr) (offset : Int) (pos : Fin 16) (operation : Option Operation) :
    bitJumpEffect s addr offset pos operation = Lift166.bitJumpEffect t addr offset pos operation := by
  unfold Lift166.bitJumpEffect
  split
  · rw [h.assignBit]
  · rw [h.assignBit]
  · rfl

theorem restoreOnReturn (h : s.AgreeAt t addr) (i : Instruction) :
    restoreOnReturn s addr i = Lift166.restoreOnReturn t addr i := by
  unfold Lift166.restoreOnReturn
  simp only [h.ofShort]

/-- Stores that look the same from an instruction give it the same lifted form. -/
theorem emit (h : s.AgreeAt t addr) (v : Variant) (i : Instruction) : emit v s addr i = Lift166.emit v t addr i := by
  unfold Lift166.emit
  cases i.family
  case alu => simp only [liftAlu, h.read, h.write]
  case cmpStep => simp only [liftCmpStep, h.read]
  case shift => simp only [liftShift, h.shiftAmount]
  case bit => simp only [liftBit, h.assignBit]
  case bitLogic => simp only [liftBitLogic, h.bitValueOf, h.ofBitOffset]
  case bitJump => simp only [liftBitJump, h.bitWordOf, h.bitJumpEffect]
  case ret => simp only [liftRet, h.restoreOnReturn]
  case stack => simp only [liftStack, h.ofShort]
  case scxt => simp only [liftScxt, h.ofShort, h.read, h.write]
  case move => simp only [liftMove, h.movedValue, h.write]
  case moveExt => simp only [liftMoveExt, h.read, h.write]
  all_goals rfl

/-! ## The line -/

theorem operandTokens (h : s.AgreeAt t addr) (slot : Slot) (op : Operand) :
    operandTokens s addr slot op = Lift166.operandTokens t addr slot op := by
  cases op with
  | short code width => simp only [Lift166.operandTokens, h.ofShort]
  | mem raw width => simp only [Lift166.operandTokens, h.regime]
  | bit offset pos => simp only [Lift166.operandTokens, h.ofBitOffset]
  | bitWord offset => simp only [Lift166.operandTokens, h.ofBitOffset]
  | _ => rfl

/-- Stores that look the same from an instruction give it the same line. -/
theorem render (h : s.AgreeAt t addr) (i : Instruction) : render s i addr = Lift166.render t i addr := by
  have hslot : slotTokens s addr i = slotTokens t addr i := by
    funext slot
    unfold slotTokens
    simp only [h.operandTokens]
  unfold Lift166.render
  rw [hslot]

end Store.AgreeAt

end Lift166
