import Lift166.Proofs.Emitted
import Mathlib.Algebra.Group.Basic

/-!
# What lifted code does beside computing

Some questions about lifted code are about its nodes at whatever depth: which of them carry a flag policy, which of
them move the stack, which are not modelled. A `Tally` answers them together, and tallies add up along the code. Reading
an operand adds nothing to one. Writing an operand adds the policy of the write to what the value holds, unless the
hardware fixes the word: then the write is dropped, and the value with it.
-/

namespace Lift166

namespace Il

/-! ## Tallies -/

/-- What nodes do beside giving a value, counted over all of them. -/
@[ext]
structure Tally where
  /-- The flag policies that nodes carry. -/
  policies : List FlagPolicy
  /-- The flags that statements assign. -/
  assigned : List Flag
  /-- How many values are put on the stack. -/
  pushes : Nat
  /-- How many values are taken off the stack. -/
  pops : Nat
  /-- How many nodes are not modelled. -/
  unmodelled : Nat
deriving DecidableEq

namespace Tally

instance : Zero Tally :=
  ⟨⟨[], [], 0, 0, 0⟩⟩

instance : Add Tally :=
  ⟨fun a b => ⟨a.policies ++ b.policies, a.assigned ++ b.assigned, a.pushes + b.pushes, a.pops + b.pops,
    a.unmodelled + b.unmodelled⟩⟩

section Fields

variable (a b : Tally)

@[simp] theorem zero_policies : (0 : Tally).policies = [] := rfl

@[simp] theorem zero_assigned : (0 : Tally).assigned = [] := rfl

@[simp] theorem zero_pushes : (0 : Tally).pushes = 0 := rfl

@[simp] theorem zero_pops : (0 : Tally).pops = 0 := rfl

@[simp] theorem zero_unmodelled : (0 : Tally).unmodelled = 0 := rfl

@[simp] theorem add_policies : (a + b).policies = a.policies ++ b.policies := rfl

@[simp] theorem add_assigned : (a + b).assigned = a.assigned ++ b.assigned := rfl

@[simp] theorem add_pushes : (a + b).pushes = a.pushes + b.pushes := rfl

@[simp] theorem add_pops : (a + b).pops = a.pops + b.pops := rfl

@[simp] theorem add_unmodelled : (a + b).unmodelled = a.unmodelled + b.unmodelled := rfl

end Fields

instance : AddMonoid Tally where
  add_assoc _ _ _ := by ext1 <;> simp [Nat.add_assoc]
  zero_add _ := by ext1 <;> simp
  add_zero _ := by ext1 <;> simp
  nsmul := nsmulRec

/-- A node with a policy, or without one. -/
def policy (flags : Option FlagPolicy) : Tally :=
  { (0 : Tally) with policies := flags.toList }

/-- The assignment of a flag. -/
def assign (flag : Flag) : Tally :=
  { (0 : Tally) with assigned := [flag] }

/-- A value put on the stack. -/
def push : Tally :=
  { (0 : Tally) with pushes := 1 }

/-- A value taken off the stack. -/
def pop : Tally :=
  { (0 : Tally) with pops := 1 }

/-- A node that is not modelled. -/
def gap : Tally :=
  { (0 : Tally) with unmodelled := 1 }

@[simp] theorem policy_none : policy none = 0 := rfl

end Tally

/-- The tally of an expression. -/
def Expr.tally : Expr → Tally
  | .reg _ _ | .const _ _ | .pointer _ _ | .flag _ => 0
  | .load _ address => address.tally
  | .unary _ _ flags arg => .policy flags + arg.tally
  | .binary _ _ flags lhs rhs => .policy flags + (lhs.tally + rhs.tally)
  | .withCarry _ _ flags lhs rhs carry => .policy flags + (lhs.tally + (rhs.tally + carry.tally))
  | .pop _ => .pop
  | .unimplemented => .gap

/-- The tally of a statement. -/
def Stmt.tally : Stmt → Tally
  | .setReg _ flags _ value => .policy flags + value.tally
  | .store _ flags address value => .policy flags + (address.tally + value.tally)
  | .setFlag flag value => .assign flag + value.tally
  | .push _ value => .push + value.tally
  | .eval value => value.tally
  | .jump dest | .call dest | .ret dest => dest.tally
  | .ifElse cond _ _ => cond.tally
  | .unimplemented => .gap
  | .noReturn | .nop | .goto _ | .label _ => 0

/-- The tally of lifted code. -/
def tallyOf (code : List Stmt) : Tally :=
  (code.map Stmt.tally).sum

@[simp] theorem tallyOf_nil : tallyOf [] = 0 := rfl

@[simp] theorem tallyOf_cons (stmt : Stmt) (code : List Stmt) : tallyOf (stmt :: code) = stmt.tally + tallyOf code := rfl

@[simp] theorem tallyOf_append (front back : List Stmt) : tallyOf (front ++ back) = tallyOf front + tallyOf back := by
  rw [tallyOf, List.map_append, List.sum_append]
  rfl

section Shorthands

variable (size : Nat)

@[simp] theorem Expr.register_tally (r : Register) : (Expr.register size r).tally = 0 := rfl

@[simp] theorem Expr.temp_tally (index : Nat) : (Expr.temp size index).tally = 0 := rfl

@[simp] theorem Expr.quietUnary_tally (op : UnaryOp) (arg : Expr) : (Expr.quietUnary op size arg).tally = arg.tally :=
  zero_add _

@[simp] theorem Expr.quiet_tally (op : BinaryOp) (lhs rhs : Expr) :
    (Expr.quiet op size lhs rhs).tally = lhs.tally + rhs.tally :=
  zero_add _

@[simp] theorem Stmt.setRegister_tally (r : Register) (value : Expr) :
    (Stmt.setRegister size r value).tally = value.tally :=
  zero_add _

@[simp] theorem Stmt.push_tally (value : Expr) : (Stmt.push size value).tally = .push + value.tally := rfl

@[simp] theorem Stmt.eval_tally (value : Expr) : (Stmt.eval value).tally = value.tally := rfl

@[simp] theorem Stmt.ret_tally (dest : Expr) : (Stmt.ret dest).tally = dest.tally := rfl

@[simp] theorem Stmt.setTemp_tally (index : Nat) (value : Expr) : (Stmt.setTemp size index value).tally = value.tally :=
  zero_add _

end Shorthands

end Il

open Il

/-! ## Reading -/

theorem Place.read_tally (place : Place) (width : Nat) : (place.read width).tally = 0 := by
  unfold read
  split
  · rfl
  · split <;> rfl

theorem pointerBase_tally (base : Register) (disp : Int) : (pointerBase base disp).tally = 0 := by
  unfold pointerBase
  split <;> rfl

/-- The address of an indirect operand is put together from its base, constants and the data page pointers. -/
theorem indirectAddress_tally (s : Store) (addr : Int) (base : Register) (disp : Int) :
    (indirectAddress s addr base disp).tally = 0 := by
  have hbase := pointerBase_tally base disp
  simp only [indirectAddress]
  split
  · simp [Expr.tally, hbase]
  · split
    · simp [Expr.tally, pageOffset, hbase]
    · simp [Expr.tally, pageOffset, selectedPage, hbase]

theorem SpecialRegister.store_tally (r : SpecialRegister) (value : Expr) : (r.store value).tally = value.tally := by
  simp [store, Stmt.tally, Expr.tally]

section Operands

variable {s : Store} {addr : Int} {op : Operand}

theorem Operand.read_tally {e : Expr} (h : op.read s addr = .ok e) : e.tally = 0 := by
  cases op
  all_goals cases h
  case short => exact Place.read_tally _ _
  case indirect => exact indirectAddress_tally _ _ _ _
  all_goals rfl

theorem Operand.step_tally (mode : IndirectMode) (op : Operand) : tallyOf (op.step mode) = 0 := by
  unfold Operand.step
  split
  · split <;> rfl
  · rfl

theorem shiftAmount_tally {amount : Expr} (h : shiftAmount s addr op = .ok amount) : amount.tally = 0 := by
  unfold shiftAmount at h
  split at h
  · cases h
    rfl
  · obtain ⟨e, hread, rfl⟩ := map_ok_iff.1 h
    simp [Expr.tally, Operand.read_tally hread]

end Operands

theorem bitValueOf_tally (s : Store) (addr offset : Int) (pos : Fin 16) : (bitValueOf s addr offset pos).tally = 0 := by
  simp [bitValueOf, bitWordOf, Expr.tally, Place.read_tally]

theorem AluOp.result_tally (op : AluOp) (width : Nat) {lhs rhs : Expr} (flags : Option FlagPolicy)
    (hlhs : lhs.tally = 0) (hrhs : rhs.tally = 0) : (op.result width lhs rhs flags).tally = .policy flags := by
  cases op <;> simp [result, Expr.tally, hlhs, hrhs]

theorem divisionOf_tally (operation : Option Operation) : (divisionOf operation).2.2.tally = 0 := by
  unfold divisionOf
  split <;> rfl

theorem combineBit_tally (operation : Option Operation) {word bit : Expr} (pos : Fin 16) (hword : word.tally = 0)
    (hbit : bit.tally = 0) : (combineBit operation word bit pos).tally = 0 := by
  unfold combineBit
  split <;> simp [Expr.tally, hword, hbit]

theorem guard_tally {i : Instruction} {cond : Expr} (h : i.guard? = some cond) : cond.tally = 0 := by
  obtain ⟨code, -, htest⟩ := Option.bind_eq_some_iff.1 h
  cases code <;> cases htest <;> rfl

/-! ## Writing -/

/-- Whether the hardware fixes the word at a place. -/
def Place.isFixed : Place → Bool
  | gpr _ => false
  | sfr address => address == SpecialRegister.zeros.address || address == SpecialRegister.ones.address

theorem fixedWord?_eq_none {address : Int} (hzeros : address ≠ SpecialRegister.zeros.address)
    (hones : address ≠ SpecialRegister.ones.address) : fixedWord? address = none := by
  unfold fixedWord?
  cases hfound : SpecialRegister.ofAddress? address with
  | none => rfl
  | some r =>
    have haddress : (r.address : Int) = address := by simpa using List.find?_some hfound
    cases r
    case zeros => exact absurd haddress.symm hzeros
    case ones => exact absurd haddress.symm hones
    all_goals rfl

theorem Place.isFixed_sfr (address : Int) : (sfr address).isFixed = (Lift166.fixedWord? address).isSome := by
  by_cases hzeros : address = SpecialRegister.zeros.address
  · subst hzeros
    rfl
  · by_cases hones : address = SpecialRegister.ones.address
    · subst hones
      rfl
    · simp [fixedWord?_eq_none hzeros hones, isFixed, hzeros, hones]

theorem Place.write_tally (place : Place) (width : Nat) (value : Expr) (flags : Option FlagPolicy) :
    (place.write width value flags).tally = if place.isFixed then 0 else .policy flags + value.tally := by
  cases place with
  | gpr r => rfl
  | sfr address =>
    rw [isFixed_sfr]
    simp only [write]
    split
    · next word hword => simp [hword, Stmt.tally]
    · next hword => simp [hword, Stmt.tally, Expr.tally]

/-- Whether a short address or a bit offset stands for a fixed word: `0x8E` for `ZEROS` and `0x8F` for `ONES`, unless
it means an extended register. -/
def isFixedCode (extended : Bool) (code : Int) : Bool :=
  !extended && (code == 0x8E || code == 0x8F)

/-- Whether a write to the operand is dropped, since its short address or bit offset stands for a fixed word. -/
def Operand.isDropped (s : Store) (addr : Int) : Operand → Bool
  | short code _ => isFixedCode (s.get addr).kinds.register code.val
  | bit offset _ => isFixedCode (s.get addr).kinds.register offset
  | _ => false

theorem Place.isFixed_iff (address : Int) : (sfr address).isFixed = true ↔ address = 0xFF1C ∨ address = 0xFF1E := by
  simp only [isFixed, Bool.or_eq_true, beq_iff_eq]
  exact Iff.rfl

theorem isFixedCode_iff {extended : Bool} {code : Int} :
    isFixedCode extended code = true ↔ extended = false ∧ (code = 0x8E ∨ code = 0x8F) := by
  simp only [isFixedCode, Bool.and_eq_true, Bool.not_eq_true', Bool.or_eq_true, beq_iff_eq]

theorem Place.ofShort_isFixed (s : Store) (addr code : Int) (width : Nat) :
    (ofShort s addr code width).isFixed = isFixedCode (s.get addr).kinds.register code := by
  unfold ofShort lastSpecialCode Store.hasRegisterBank
  rw [Bool.eq_iff_iff, isFixedCode_iff]
  split
  · simp only [isFixed, Bool.false_eq_true, false_iff]
    omega
  · rw [isFixed_iff]
    cases (s.get addr).kinds.register
    · simp only [Bool.false_eq_true, if_false, true_and]
      omega
    · simp only [if_true, Bool.true_eq_false, false_and, iff_false]
      omega

theorem lowBits_seven (offset : Int) : (lowBits 7 offset : Int) = offset % 128 :=
  natCast_lowBits 7 offset

theorem Place.ofBitOffset_isFixed (s : Store) (addr offset : Int) :
    (ofBitOffset s addr offset).isFixed = isFixedCode (s.get addr).kinds.register offset := by
  unfold ofBitOffset lastBitMemoryOffset lastSpecialCode Store.hasRegisterBank
  rw [Bool.eq_iff_iff, isFixedCode_iff, lowBits_seven]
  split
  · rw [isFixed_iff]
    omega
  split
  · rw [isFixed_iff]
    cases (s.get addr).kinds.register
    · simp only [Bool.false_eq_true, if_false, true_and]
      omega
    · simp only [if_true, Bool.true_eq_false, false_and, iff_false]
      omega
  · simp only [isFixed, Bool.false_eq_true, false_iff]
    omega

theorem Operand.isDropped_short (s : Store) (addr : Int) (code : Fin 256) (width : Nat) :
    (short code width).isDropped s addr = (Place.ofShort s addr code.val width).isFixed :=
  (Place.ofShort_isFixed s addr code.val width).symm

theorem Operand.isDropped_bit (s : Store) (addr offset : Int) (pos : Fin 16) :
    (bit offset pos).isDropped s addr = (Place.ofBitOffset s addr offset).isFixed :=
  (Place.ofBitOffset_isFixed s addr offset).symm

theorem Operand.write_tally {s : Store} {addr : Int} {op : Operand} {value : Expr} {flags : Option FlagPolicy}
    {stmt : Stmt} (h : op.write s addr value flags = .ok stmt) :
    stmt.tally = if op.isDropped s addr then 0 else .policy flags + value.tally := by
  cases op
  all_goals cases h
  case short =>
    rw [isDropped_short]
    exact Place.write_tally _ _ _ _
  case indirect => simp [Stmt.tally, indirectAddress_tally, isDropped]
  all_goals simp [Stmt.tally, Expr.tally, isDropped]

theorem assignBit_tally (s : Store) (addr offset : Int) (pos : Fin 16) (value : Bool) :
    (assignBit s addr offset pos value).tally = 0 := by
  cases value <;> simp [assignBit, Place.write_tally, Place.read_tally, Expr.tally]

theorem bitJumpEffect_tally (s : Store) (addr offset : Int) (pos : Fin 16) (operation : Option Operation) :
    tallyOf (bitJumpEffect s addr offset pos operation) = 0 := by
  unfold bitJumpEffect
  split <;> simp [assignBit_tally]

/-! ## The operands of an instruction -/

namespace Instruction

/-- Whether a write to the operand in a slot is dropped. -/
def drops (s : Store) (addr : Int) (i : Instruction) (slot : Slot) : Bool :=
  match i.operand slot with
  | .ok op => op.isDropped s addr
  | .error _ => false

/-- Whether the operand in a slot is a word at the stack pointer, which is stepped in the given mode. -/
def usesStack (v : Variant) (i : Instruction) (slot : Slot) (mode : IndirectMode) : Bool :=
  match i.operand slot with
  | .ok (.indirect base stepped width _) => decide (base = v.stackPointer ∧ stepped = mode ∧ width = 2)
  | _ => false

/-- Whether the instruction extends the ones after it by a value that a register holds. -/
def extendsByRegister (i : Instruction) : Bool :=
  match i.operand .ext with
  | .ok (.extension ext) => ext.register.isSome
  | _ => false

variable {i : Instruction} {slot : Slot} {op : Operand}

theorem drops_eq (s : Store) (addr : Int) (h : i.operand slot = .ok op) : i.drops s addr slot = op.isDropped s addr := by
  rw [drops, h]

theorem usesStack_eq (v : Variant) (mode : IndirectMode) (h : i.operand slot = .ok op) :
    i.usesStack v slot mode = op.isStackSlot v mode := by
  rw [usesStack, h]
  cases op with
  | indirect base stepped width disp =>
    rw [Bool.eq_iff_iff]
    simp only [Operand.isStackSlot, decide_eq_true_eq, Bool.and_eq_true, beq_iff_eq]
    exact and_comm
  | _ => rfl

/-- What an instruction of a family does beside computing. -/
def tally (v : Variant) (s : Store) (addr : Int) (i : Instruction) : Family → Tally
  | .alu =>
    if i.operation ≠ some (.alu .cmp) ∧ i.drops s addr .dst then 0 else .policy i.flags
  | .cmpStep | .unary | .mul | .div | .shift => .policy i.flags
  | .prior | .bitField => .gap
  | .bitLogic =>
    if i.operation = some (.bitLogic .bcmp) then .assign .e + (.assign .z + (.assign .v + (.assign .c + .assign .n)))
    else if i.drops s addr .dst then 0 else .policy i.flags
  | .ret =>
    if v.linkRegister.isSome then 0
    else if i.operation = some (.ret .ret) then .pop
    else if i.operation = some (.ret .retp) ∧ i.drops s addr .reg then .pop
    else .pop + .pop
  | .stack =>
    if i.operation = some .push then .push
    else if i.drops s addr .reg then 0 else .policy i.flags + .pop
  | .scxt => .push
  | .move =>
    let taken := if i.usesStack v .src .postInc then .pop else 0
    if i.usesStack v .dst .preDec then .push + taken
    else if i.drops s addr .dst then 0 else .policy i.flags + taken
  | .moveExt => if i.drops s addr .dst then 0 else .policy i.flags
  | .system => if i.operation = some .noreturn then 0 else .gap
  | .ext => if i.extendsByRegister then .gap else 0
  | _ => 0

end Instruction

section Forms

variable {v : Variant} {s : Store} {addr : Int} {i : Instruction}

theorem Place.ofShort_isFixed_eq {code : Fin 256} {width : Nat} {slot : Slot}
    (h : i.operand slot = .ok (.short code width)) (other : Nat) :
    (Place.ofShort s addr code.val other).isFixed = i.drops s addr slot := by
  rw [i.drops_eq s addr h]
  exact ofShort_isFixed s addr code.val other

/-- A return takes one more word off the stack, unless it restores a fixed one. -/
theorem restoreOnReturn_tally {restore : Stmt} (h : restoreOnReturn s addr i = .ok restore) :
    restore.tally = if i.operation = some (.ret .retp) ∧ i.drops s addr .reg then 0 else .pop := by
  unfold restoreOnReturn at h
  split at h
  · next hop =>
    cases h
    simp [hop, Expr.tally]
  · next hop =>
    rw [bind_ok_iff] at h
    obtain ⟨op, hoperand, h⟩ := h
    split at h
    · cases h
      simp [Place.write_tally, hop, Place.ofShort_isFixed_eq hoperand, Expr.tally]
    · cases h
  · next hop =>
    cases h
    rw [if_neg fun hretp => hop hretp.1]
    rfl

theorem movedValue_tally {src : Operand} {value : Expr} (h : movedValue v s addr src = .ok value) :
    value.tally = if src.isStackSlot v .postInc then .pop else 0 := by
  unfold movedValue at h
  split at h
  · next hslot =>
    cases h
    rw [if_pos hslot]
    rfl
  · next hslot =>
    rw [if_neg hslot]
    exact Operand.read_tally h

/-- Lifted code does what its family says. -/
theorem Emits.tally_eq {family : Family} {code : List Stmt} (h : Emits v s addr i family code) :
    tallyOf code = i.tally v s addr family := by
  cases h with
  | @compare dst src width lhs rhs dstOperand srcOperand operation dstWidth dstValue srcValue =>
    have hresult := AluOp.cmp.result_tally width i.flags (Operand.read_tally dstValue) (Operand.read_tally srcValue)
    simp [hresult, Operand.step_tally, Instruction.tally, operation]
  | @combine dst src op width lhs rhs stmt dstOperand srcOperand operation stored dstWidth dstValue srcValue written =>
    have hresult := op.result_tally width i.flags (Operand.read_tally dstValue) (Operand.read_tally srcValue)
    have hstmt := Operand.write_tally written
    simp [hstmt, hresult, Operand.step_tally, Instruction.tally, operation, stored, i.drops_eq s addr dstOperand]
  | @cmpStep r width src rhs stepped amount dstOperand srcOperand srcValue step result =>
    have hstepped : stepped.tally = 0 := by
      rw [result]
      split <;> rfl
    simp [Expr.tally, Operand.read_tally srcValue, hstepped, Instruction.tally]
  | unary => simp [Expr.tally, Instruction.tally]
  | mul => simp [SpecialRegister.store_tally, Expr.tally, Instruction.tally]
  | div srcOperand chosen =>
    have hdividend := divisionOf_tally i.operation
    rw [chosen] at hdividend
    simp [SpecialRegister.store_tally, Expr.tally, Instruction.tally, hdividend]
  | shift dstOperand srcOperand counted => simp [Expr.tally, shiftAmount_tally counted, Instruction.tally]
  | prior => simp [Expr.tally, Instruction.tally]
  | bit => simp [assignBit_tally, Instruction.tally]
  | bitCompare dstOperand srcOperand operation =>
    simp [compareBits, Stmt.tally, Expr.tally, bitValueOf_tally, Instruction.tally, operation]
  | @bitCombine dstOffset srcOffset dstPos srcPos dstOperand srcOperand operation =>
    have hvalue := combineBit_tally i.operation dstPos ((Place.ofBitOffset s addr dstOffset).read_tally 2)
      (bitValueOf_tally s addr srcOffset srcPos)
    simp [Place.write_tally, hvalue, Instruction.tally, operation, i.drops_eq s addr dstOperand,
      Operand.isDropped_bit]
  | bitField => rfl
  | bitJump => simp [Stmt.tally, Expr.tally, bitWordOf, Place.read_tally, bitJumpEffect_tally, Instruction.tally]
  | indirectJump | indirectCall => rfl
  | jump | call | trap | nop => rfl
  | guardedJump direct targetOperand guarded | guardedCall direct targetOperand guarded =>
    simp [Stmt.tally, Expr.tally, guard_tally guarded, Instruction.tally]
  | linkedReturn linked => simp [Instruction.tally, linked]
  | plainReturn unlinked operation => simp [Expr.tally, Instruction.tally, unlinked, operation]
  | restoringReturn unlinked operation restored =>
    by_cases hlost : i.operation = some (.ret .retp) ∧ i.drops s addr .reg
    · simp [Expr.tally, restoreOnReturn_tally restored, Instruction.tally, unlinked, hlost]
    · simp [Expr.tally, restoreOnReturn_tally restored, Instruction.tally, unlinked, operation, hlost]
  | powerDown operation => simp [Stmt.tally, Instruction.tally, operation]
  | system operation => simp [Stmt.tally, Instruction.tally, operation]
  | push regOperand operation => simp [Place.read_tally, Instruction.tally, operation]
  | pop regOperand operation =>
    simp [Place.write_tally, Place.ofShort_isFixed_eq regOperand, Expr.tally, Instruction.tally, operation]
  | scxt dstOperand srcOperand srcValue =>
    simp [Place.write_tally, Place.read_tally, Operand.read_tally srcValue, Instruction.tally]
  | pushMove dstOperand srcOperand moved stacked =>
    simp [movedValue_tally moved, Instruction.tally, i.usesStack_eq v _ dstOperand,
      i.usesStack_eq v _ srcOperand, stacked]
  | @move dst src value stmt dstOperand srcOperand moved unstacked written =>
    have hstep : tallyOf (if src.isStackSlot v .postInc then [] else src.step .postInc) = 0 := by
      split
      · rfl
      · exact Operand.step_tally _ _
    simp [Operand.write_tally written, movedValue_tally moved, Operand.step_tally, hstep, Instruction.tally,
      i.usesStack_eq v _ dstOperand, i.usesStack_eq v _ srcOperand, i.drops_eq s addr dstOperand, unstacked]
  | moveExt dstOperand srcOperand srcValue chosen written =>
    simp [Operand.write_tally written, Operand.read_tally srcValue, Instruction.tally, i.drops_eq s addr dstOperand]
  | extension extOperand known => simp [Stmt.tally, Instruction.tally, Instruction.extendsByRegister, extOperand, known]
  | extensionByRegister extOperand unknown =>
    simp [Stmt.tally, Instruction.tally, Instruction.extendsByRegister, extOperand, unknown]

end Forms

/-- Lifting a decoded instruction gives code that does what its family says, under any store. -/
theorem lift_tally {bytes : List UInt8} {addr : Int} {i : Instruction} (h : decode bytes addr = .ok i) (l : Lifter)
    (s : Store) :
    ∃ code, (l.lift s i addr).answer = .ok ⟨i.length, code⟩ ∧ tallyOf code = i.tally l.variant s addr i.family := by
  obtain ⟨code, hanswer, hemits⟩ := lift_emits h l s
  exact ⟨code, hanswer, hemits.tally_eq⟩

end Lift166
