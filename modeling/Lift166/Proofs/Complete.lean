import Lift166.Lifting.Lift
import Lift166.Listing
import Lift166.Proofs.Decoded

/-!
# Decoded instructions are complete

An emitter finds the operands of an instruction by slot and refuses an operand of the wrong sort, so an
instruction put together by hand may fail to lift. A decoded one never does. The argument compares two tables: the
sorts of operand that a layout puts into its slots, and the sorts that the emitter of a family needs there. That
the first covers the second is a finite fact about the opcode table.
-/

namespace Lift166

open Il

/-! ## Sorts of operand -/

/-- The sorts of operand. -/
inductive OperandSort
  | reg | short | imm | mem | indirect | bit | bitWord | target | extension
deriving DecidableEq

/-- The sort of an operand. -/
def Operand.sort : Operand → OperandSort
  | reg .. => .reg
  | short .. => .short
  | imm .. => .imm
  | mem .. => .mem
  | indirect .. => .indirect
  | bit .. => .bit
  | bitWord _ => .bitWord
  | target _ => .target
  | extension _ => .extension

/-- The sorts that have a value. -/
def valueSorts : List OperandSort := [.reg, .short, .imm, .mem, .indirect]

/-- The sorts that can be assigned. -/
def assignableSorts : List OperandSort := [.reg, .short, .mem, .indirect]

/-- An instruction holds an operand of one of the given sorts in a slot. -/
def Instruction.Holds (i : Instruction) (slot : Slot) (sorts : List OperandSort) : Prop :=
  ∃ op, i.operand slot = .ok op ∧ op.sort ∈ sorts

/-- The sorts that a layout puts into its slots. -/
def Layout.sorts : Layout → List (Slot × List OperandSort)
  | regReg | wordByte => [(.dst, [.reg]), (.src, [.reg])]
  | regPointer => [(.dst, [.reg]), (.src, [.indirect, .imm])]
  | shortImm | shortWord => [(.dst, [.short]), (.src, [.imm])]
  | shortMem | shortMemByte => [(.dst, [.short]), (.src, [.mem])]
  | memShort | memShortByte => [(.dst, [.mem]), (.src, [.short])]
  | regImm4 | regWord | shiftCount => [(.dst, [.reg]), (.src, [.imm])]
  | regMem => [(.dst, [.reg]), (.src, [.mem])]
  | load _ | loadDisp => [(.dst, [.reg]), (.src, [.indirect])]
  | save _ | saveDisp => [(.dst, [.indirect]), (.src, [.reg])]
  | transfer _ _ => [(.dst, [.indirect]), (.src, [.indirect])]
  | pointerMem => [(.dst, [.indirect]), (.src, [.mem])]
  | memPointer => [(.dst, [.mem]), (.src, [.indirect])]
  | bitPair => [(.dst, [.bit]), (.src, [.bit])]
  | dstReg => [(.dst, [.reg])]
  | srcReg => [(.src, [.reg])]
  | bit => [(.bit, [.bit])]
  | bitField _ => [(.bitoff, [.bitWord]), (.mask, [.imm]), (.data, [.imm])]
  | bitJump => [(.bit, [.bit]), (.target, [.target])]
  | conditionalRelative | absolute | relative => [(.target, [.target])]
  | segmented => [(.seg, [.imm]), (.target, [.target])]
  | pointerBranch => [(.base, [.indirect])]
  | short => [(.reg, [.short])]
  | trap => [(.trap, [.imm]), (.target, [.target])]
  | extensionShort | extensionImmediate | extensionRegister => [(.ext, [.extension])]
  | pushAndCall | plain | protectedOpcode => []

/-- The sorts that the emitter of a family needs in the slots it reads. -/
def Family.needs (family : Family) (operation : Option Operation) : List (Slot × List OperandSort) :=
  match family with
  | alu | move | moveExt => [(.dst, assignableSorts), (.src, valueSorts)]
  | cmpStep | shift => [(.dst, [.reg]), (.src, valueSorts)]
  | unary | prior => [(.dst, [.reg])]
  | mul => [(.dst, [.reg]), (.src, [.reg])]
  | div => [(.src, [.reg])]
  | bit => [(.bit, [.bit])]
  | bitLogic => [(.dst, [.bit]), (.src, [.bit])]
  | bitJump => [(.bit, [.bit]), (.target, [.target])]
  | jump | call =>
    if operation = some (.transfer .indirect) then [(.base, [.indirect])] else [(.target, [.target])]
  | ret => if operation = some (.ret .retp) then [(.reg, [.short])] else []
  | trap => [(.target, [.target])]
  | stack => [(.reg, [.short])]
  | scxt => [(.dst, [.short]), (.src, valueSorts)]
  | ext => [(.ext, [.extension])]
  | bitField | system | nop | named _ => []

/-- Whether a family can be lifted with an operation. Two families insist on one of their own operations. -/
def Family.takes : Family → Option Operation → Bool
  | alu, some (.alu _) | cmpStep, some (.step _) => true
  | alu, _ | cmpStep, _ | named _, _ => false
  | _, _ => true

/-- Everything that the emitter of the family asks for is there. -/
structure Instruction.Complete (i : Instruction) : Prop where
  /-- The slots hold operands of the sorts needed. -/
  holds : ∀ need ∈ i.family.needs i.operation, i.Holds need.1 need.2
  /-- The operation belongs to the family. -/
  takes : i.family.takes i.operation = true

/-! ## Layouts give what families need -/

/-- A layout with two operands fills the two slots with its own sorts. -/
theorem Layout.Pair.sorts {entry : OpcodeEntry} {layout : Layout} {dst src : Operand}
    (h : layout.Pair entry dst src) :
    ∃ dstSorts srcSorts, layout.sorts = [(.dst, dstSorts), (.src, srcSorts)] ∧
      dst.sort ∈ dstSorts ∧ src.sort ∈ srcSorts := by
  cases h
  case regData3 => exact ⟨_, _, rfl, List.mem_cons_self, List.mem_cons_of_mem _ List.mem_cons_self⟩
  all_goals exact ⟨_, _, rfl, List.mem_cons_self, List.mem_cons_self⟩

/-- An instruction with the bindings of a list holds what the list binds to a slot first. -/
theorem Instruction.holds_of_lookup {i : Instruction} {slot : Slot} {op : Operand} {sorts : List OperandSort}
    (hlookup : i.binds.lookup slot = some op) (hsort : op.sort ∈ sorts) : i.Holds slot sorts := by
  refine ⟨op, ?_, hsort⟩
  simp only [operand, operand?, hlookup]

/-- The slots of a layout are filled with its sorts. -/
theorem Layout.Yields.holds {entry : OpcodeEntry} {pc : Int} {layout : Layout} {i : Instruction}
    (h : layout.Yields entry pc i) : ∀ given ∈ layout.sorts, i.Holds given.1 given.2 := by
  cases h with
  | pair operands =>
    obtain ⟨dstSorts, srcSorts, hsorts, hdst, hsrc⟩ := operands.sorts
    rw [hsorts]
    simp only [List.forall_mem_cons, List.not_mem_nil, false_imp_iff, implies_true, and_true]
    exact ⟨Instruction.holds_of_lookup rfl hdst, Instruction.holds_of_lookup rfl hsrc⟩
  | extension encoded =>
    cases encoded <;>
      simp only [Layout.sorts, List.forall_mem_cons, List.not_mem_nil, false_imp_iff, implies_true, and_true] <;>
      exact Instruction.holds_of_lookup rfl List.mem_cons_self
  | plain => exact fun _ h => absurd h List.not_mem_nil
  | protectedOpcode => exact fun _ h => absurd h List.not_mem_nil
  | bitField dataFirst offset mask data =>
    simp only [Layout.sorts, List.forall_mem_cons, List.not_mem_nil, false_imp_iff, implies_true, and_true]
    exact ⟨Instruction.holds_of_lookup rfl List.mem_cons_self, Instruction.holds_of_lookup rfl List.mem_cons_self,
      Instruction.holds_of_lookup rfl List.mem_cons_self⟩
  | bitJump | segmented | trap =>
    simp only [Layout.sorts, List.forall_mem_cons, List.not_mem_nil, false_imp_iff, implies_true, and_true]
    exact ⟨Instruction.holds_of_lookup rfl List.mem_cons_self, Instruction.holds_of_lookup rfl List.mem_cons_self⟩
  | dstReg | srcReg | bit | conditionalRelative | absolute | pointerBranch | relative | short =>
    simp only [Layout.sorts, List.forall_mem_cons, List.not_mem_nil, false_imp_iff, implies_true, and_true]
    exact Instruction.holds_of_lookup rfl List.mem_cons_self

/-- Every row of the table has an operation of its family and a layout that gives what the family needs. The
combined push and call is left out, since it is never decoded. -/
theorem opcodeTable_covers : ∀ entry ∈ opcodeTable, entry.layout ≠ .pushAndCall →
    entry.family.takes entry.operation = true ∧
    ∀ need ∈ entry.family.needs entry.operation, ∃ given ∈ entry.layout.sorts,
      given.1 = need.1 ∧ ∀ sort ∈ given.2, sort ∈ need.2 := by
  decide +kernel

/-- A layout's instruction keeps the family, the length and the operation of its row. -/
theorem Layout.Yields.header {entry : OpcodeEntry} {pc : Int} {layout : Layout} {i : Instruction}
    (h : layout.Yields entry pc i) :
    i.family = entry.family ∧ i.length = entry.length ∧ i.operation = entry.operation := by
  cases h <;> exact ⟨rfl, rfl, rfl⟩

theorem Layout.Yields.ne_pushAndCall {entry : OpcodeEntry} {pc : Int} {layout : Layout} {i : Instruction}
    (h : layout.Yields entry pc i) : layout ≠ .pushAndCall := by
  rintro rfl
  cases h with
  | pair operands => cases operands
  | extension encoded => cases encoded

/-- Decoded instructions are complete. -/
theorem complete_of_decode {bytes : List UInt8} {addr : Int} {i : Instruction}
    (h : decode bytes addr = .ok i) : i.Complete := by
  obtain ⟨entry, hmem, hyields⟩ := decode_yields h
  obtain ⟨hfamily, -, hoperation⟩ := hyields.header
  obtain ⟨htakes, hcovers⟩ := opcodeTable_covers entry hmem hyields.ne_pushAndCall
  refine ⟨fun need hneed => ?_, ?_⟩
  · rw [hfamily, hoperation] at hneed
    obtain ⟨given, hgiven, hslot, hsorts⟩ := hcovers need hneed
    obtain ⟨op, hop, hsort⟩ := hyields.holds given hgiven
    exact ⟨op, hslot ▸ hop, hsorts _ hsort⟩
  · rw [hfamily, hoperation]
    exact htakes

/-! ## Complete instructions lift -/

theorem ok_bind {ε α β : Type} (value : α) (next : α → Except ε β) :
    ((.ok value : Except ε α) >>= next) = next value := rfl

section Sorts

variable {op : Operand}

theorem Operand.eq_reg (h : op.sort = .reg) : ∃ r width, op = .reg r width := by
  cases op
  case reg r width => exact ⟨r, width, rfl⟩
  all_goals cases h

theorem Operand.eq_short (h : op.sort = .short) : ∃ code width, op = .short code width := by
  cases op
  case short code width => exact ⟨code, width, rfl⟩
  all_goals cases h

theorem Operand.eq_indirect (h : op.sort = .indirect) :
    ∃ base mode width disp, op = .indirect base mode width disp := by
  cases op
  case indirect base mode width disp => exact ⟨base, mode, width, disp, rfl⟩
  all_goals cases h

theorem Operand.eq_bit (h : op.sort = .bit) : ∃ offset pos, op = .bit offset pos := by
  cases op
  case bit offset pos => exact ⟨offset, pos, rfl⟩
  all_goals cases h

theorem Operand.eq_target (h : op.sort = .target) : ∃ address, op = .target address := by
  cases op
  case target address => exact ⟨address, rfl⟩
  all_goals cases h

/-- What can be assigned has a value. -/
theorem value_of_assignable (h : op.sort ∈ assignableSorts) : op.sort ∈ valueSorts := by
  cases op
  case reg | short | mem | indirect => simp [Operand.sort, valueSorts]
  all_goals simp [Operand.sort, assignableSorts] at h

theorem Operand.read_ok (s : Store) (addr : Int) (h : op.sort ∈ valueSorts) : ∃ e, op.read s addr = .ok e := by
  cases op
  case reg | short | imm | mem | indirect => exact ⟨_, rfl⟩
  all_goals simp [Operand.sort, valueSorts] at h

theorem Operand.write_ok (s : Store) (addr : Int) (value : Expr) (flags : Option FlagPolicy)
    (h : op.sort ∈ assignableSorts) : ∃ stmt, op.write s addr value flags = .ok stmt := by
  cases op
  case reg | short | mem | indirect => exact ⟨_, rfl⟩
  all_goals simp [Operand.sort, assignableSorts] at h

theorem Operand.width_ok (h : op.sort ∈ assignableSorts) : ∃ width, op.width? = some width := by
  cases op
  case reg | short | mem | indirect => exact ⟨_, rfl⟩
  all_goals simp [Operand.sort, assignableSorts] at h

end Sorts

section Emitters

variable {i : Instruction} {dst src : Operand} (v : Variant) (s : Store) (addr : Int)

theorem liftAlu_ok {op : AluOp} (hdst : i.operand .dst = .ok dst) (hsrc : i.operand .src = .ok src)
    (hop : i.operation = some (.alu op)) (hassign : dst.sort ∈ assignableSorts) (hvalue : src.sort ∈ valueSorts) :
    ∃ code, liftAlu s addr i = .ok code := by
  obtain ⟨width, hwidth⟩ := Operand.width_ok hassign
  obtain ⟨lhs, hlhs⟩ := Operand.read_ok s addr (value_of_assignable hassign)
  obtain ⟨rhs, hrhs⟩ := Operand.read_ok s addr hvalue
  obtain ⟨stmt, hstmt⟩ := Operand.write_ok s addr (op.result width lhs rhs i.flags) none hassign
  have haluOp : i.aluOp = .ok op := by simp only [Instruction.aluOp, hop]
  simp only [liftAlu, hdst, hsrc, haluOp, hwidth, hlhs, hrhs, hstmt, ok_bind]
  cases op <;> exact ⟨_, rfl⟩

theorem liftCmpStep_ok {r : Register} {width : Nat} {amount : Int} (hdst : i.operand .dst = .ok (.reg r width))
    (hsrc : i.operand .src = .ok src) (hop : i.operation = some (.step amount)) (hvalue : src.sort ∈ valueSorts) :
    ∃ code, liftCmpStep s addr i = .ok code := by
  obtain ⟨rhs, hrhs⟩ := Operand.read_ok s addr hvalue
  have hstep : i.stepAmount = .ok amount := by simp only [Instruction.stepAmount, hop]
  simp only [liftCmpStep, hdst, hsrc, hrhs, hstep, ok_bind]
  exact ⟨_, rfl⟩

theorem liftShift_ok {r : Register} {width : Nat} (hdst : i.operand .dst = .ok (.reg r width))
    (hsrc : i.operand .src = .ok src) (hvalue : src.sort ∈ valueSorts) :
    ∃ code, liftShift s addr i = .ok code := by
  obtain ⟨amount, hamount⟩ : ∃ amount, shiftAmount s addr src = .ok amount := by
    obtain ⟨e, he⟩ := Operand.read_ok s addr hvalue
    cases src
    case imm value width => exact ⟨_, rfl⟩
    all_goals exact ⟨_, by simp only [shiftAmount, he]; rfl⟩
  simp only [liftShift, hdst, hsrc, hamount, ok_bind]
  exact ⟨_, rfl⟩

theorem liftMove_ok (hdst : i.operand .dst = .ok dst) (hsrc : i.operand .src = .ok src)
    (hassign : dst.sort ∈ assignableSorts) (hvalue : src.sort ∈ valueSorts) :
    ∃ code, liftMove v s addr i = .ok code := by
  obtain ⟨value, hmoved⟩ : ∃ value, movedValue v s addr src = .ok value := by
    unfold movedValue
    split
    · exact ⟨_, rfl⟩
    · exact Operand.read_ok s addr hvalue
  obtain ⟨stmt, hstmt⟩ := Operand.write_ok s addr value i.flags hassign
  simp only [liftMove, hdst, hsrc, hmoved, hstmt, ok_bind]
  split <;> exact ⟨_, rfl⟩

theorem liftMoveExt_ok (hdst : i.operand .dst = .ok dst) (hsrc : i.operand .src = .ok src)
    (hassign : dst.sort ∈ assignableSorts) (hvalue : src.sort ∈ valueSorts) :
    ∃ code, liftMoveExt s addr i = .ok code := by
  obtain ⟨byte, hbyte⟩ := Operand.read_ok s addr hvalue
  obtain ⟨stmt, hstmt⟩ := Operand.write_ok s addr
    (.quietUnary (if i.operation = some .sx then .sx else .zx) 2 byte) i.flags hassign
  simp only [liftMoveExt, hdst, hsrc, hbyte, hstmt, ok_bind]
  exact ⟨_, rfl⟩

theorem liftScxt_ok {code : Fin 256} {width : Nat} (hdst : i.operand .dst = .ok (.short code width))
    (hsrc : i.operand .src = .ok src) (hvalue : src.sort ∈ valueSorts) :
    ∃ code, liftScxt s addr i = .ok code := by
  obtain ⟨value, hread⟩ := Operand.read_ok s addr hvalue
  simp only [liftScxt, hdst, hsrc, hread, Operand.write, ok_bind]
  exact ⟨_, rfl⟩

theorem liftRet_ok (hreg : i.operation = some (.ret .retp) → i.Holds .reg [.short]) :
    ∃ code, liftRet v s addr i = .ok code := by
  obtain ⟨restore, hrestore⟩ : ∃ restore, restoreOnReturn s addr i = .ok restore := by
    unfold restoreOnReturn
    split
    · exact ⟨_, rfl⟩
    · next hop =>
      obtain ⟨op, hop, hsort⟩ := hreg hop
      obtain ⟨code, width, rfl⟩ := Operand.eq_short (List.mem_singleton.1 hsort)
      simp only [hop, ok_bind]
      exact ⟨_, rfl⟩
    · exact ⟨_, rfl⟩
  unfold liftRet
  split
  · exact ⟨_, rfl⟩
  · split
    · exact ⟨_, rfl⟩
    · simp only [hrestore, ok_bind]
      exact ⟨_, rfl⟩

theorem branchBase_ok (hbase : i.Holds .base [.indirect]) : ∃ base, i.branchBase = .ok base := by
  obtain ⟨op, hop, hsort⟩ := hbase
  obtain ⟨base, mode, width, disp, rfl⟩ := Operand.eq_indirect (List.mem_singleton.1 hsort)
  simp only [Instruction.branchBase, hop, ok_bind]
  exact ⟨_, rfl⟩

theorem branchTarget_ok (htarget : i.Holds .target [.target]) : ∃ target, i.branchTarget = .ok target := by
  obtain ⟨op, hop, hsort⟩ := htarget
  obtain ⟨address, rfl⟩ := Operand.eq_target (List.mem_singleton.1 hsort)
  simp only [Instruction.branchTarget, hop, ok_bind]
  exact ⟨_, rfl⟩

/-- A jump or call finds its pointer or its target, whichever it goes through. -/
theorem transfer_operands
    (h : ∀ need ∈ if i.operation = some (.transfer .indirect) then [(Slot.base, [OperandSort.indirect])]
      else [(.target, [.target])], i.Holds need.1 need.2) :
    (i.isIndirect = true ∧ ∃ base, i.branchBase = .ok base) ∨
      (i.isIndirect = false ∧ ∃ target, i.branchTarget = .ok target) := by
  by_cases hop : i.operation = some (.transfer .indirect)
  · rw [if_pos hop] at h
    exact .inl ⟨by simp only [Instruction.isIndirect, hop, beq_self_eq_true],
      branchBase_ok (h _ List.mem_cons_self)⟩
  · rw [if_neg hop] at h
    exact .inr ⟨by simpa [Instruction.isIndirect] using hop, branchTarget_ok (h _ List.mem_cons_self)⟩

/-- A complete instruction that is no extension has a lifted form, whatever the store holds. -/
theorem emit_ok (h : i.Complete) (hext : i.family ≠ .ext) : ∃ code, emit v s addr i = .ok code := by
  have hneeds : ∀ family, i.family = family → ∀ need ∈ family.needs i.operation, i.Holds need.1 need.2 :=
    fun _ hfamily => hfamily ▸ h.holds
  have htakes := h.takes
  unfold emit
  cases hfamily : i.family
  all_goals
    have hholds := hneeds _ hfamily
    simp only [Family.needs, List.forall_mem_cons, List.not_mem_nil, false_imp_iff, implies_true, and_true] at hholds
    rw [hfamily] at htakes
  case alu =>
    obtain ⟨⟨dst, hdst, hassign⟩, src, hsrc, hvalue⟩ := hholds
    obtain ⟨op, hop⟩ : ∃ op, i.operation = some (.alu op) := by
      unfold Family.takes at htakes
      split at htakes <;> simp_all
    exact liftAlu_ok s addr hdst hsrc hop hassign hvalue
  case cmpStep =>
    obtain ⟨⟨dst, hdst, hsort⟩, src, hsrc, hvalue⟩ := hholds
    obtain ⟨r, width, rfl⟩ := Operand.eq_reg (List.mem_singleton.1 hsort)
    obtain ⟨amount, hop⟩ : ∃ amount, i.operation = some (.step amount) := by
      unfold Family.takes at htakes
      split at htakes <;> simp_all
    exact liftCmpStep_ok s addr hdst hsrc hop hvalue
  case unary =>
    obtain ⟨dst, hdst, hsort⟩ := hholds
    obtain ⟨r, width, rfl⟩ := Operand.eq_reg (List.mem_singleton.1 hsort)
    simp only [liftUnary, Instruction.register, hdst, ok_bind]
    exact ⟨_, rfl⟩
  case mul =>
    obtain ⟨⟨dst, hdst, hsort⟩, src, hsrc, hsort'⟩ := hholds
    obtain ⟨r, width, rfl⟩ := Operand.eq_reg (List.mem_singleton.1 hsort)
    obtain ⟨r', width', rfl⟩ := Operand.eq_reg (List.mem_singleton.1 hsort')
    simp only [liftMul, hdst, hsrc, ok_bind]
    exact ⟨_, rfl⟩
  case div =>
    obtain ⟨src, hsrc, hsort⟩ := hholds
    obtain ⟨r, width, rfl⟩ := Operand.eq_reg (List.mem_singleton.1 hsort)
    simp only [liftDiv, Instruction.register, hsrc, ok_bind]
    exact ⟨_, rfl⟩
  case shift =>
    obtain ⟨⟨dst, hdst, hsort⟩, src, hsrc, hvalue⟩ := hholds
    obtain ⟨r, width, rfl⟩ := Operand.eq_reg (List.mem_singleton.1 hsort)
    exact liftShift_ok s addr hdst hsrc hvalue
  case prior =>
    obtain ⟨dst, hdst, hsort⟩ := hholds
    obtain ⟨r, width, rfl⟩ := Operand.eq_reg (List.mem_singleton.1 hsort)
    simp only [liftPrior, Instruction.register, hdst, ok_bind]
    exact ⟨_, rfl⟩
  case bit =>
    obtain ⟨bit, hbit, hsort⟩ := hholds
    obtain ⟨offset, pos, rfl⟩ := Operand.eq_bit (List.mem_singleton.1 hsort)
    simp only [liftBit, hbit, ok_bind]
    exact ⟨_, rfl⟩
  case bitLogic =>
    obtain ⟨⟨dst, hdst, hsort⟩, src, hsrc, hsort'⟩ := hholds
    obtain ⟨offset, pos, rfl⟩ := Operand.eq_bit (List.mem_singleton.1 hsort)
    obtain ⟨offset', pos', rfl⟩ := Operand.eq_bit (List.mem_singleton.1 hsort')
    simp only [liftBitLogic, hdst, hsrc, ok_bind]
    split <;> exact ⟨_, rfl⟩
  case bitJump =>
    obtain ⟨⟨bit, hbit, hsort⟩, target, htarget, hsort'⟩ := hholds
    obtain ⟨offset, pos, rfl⟩ := Operand.eq_bit (List.mem_singleton.1 hsort)
    obtain ⟨address, rfl⟩ := Operand.eq_target (List.mem_singleton.1 hsort')
    simp only [liftBitJump, hbit, htarget, ok_bind]
    exact ⟨_, rfl⟩
  case jump =>
    rcases transfer_operands hholds with ⟨hind, base, hbase⟩ | ⟨hind, target, htarget⟩
    · simp only [liftJump, hind, hbase, ok_bind, if_true]
      exact ⟨_, rfl⟩
    · simp only [liftJump, hind, htarget, ok_bind, Bool.false_eq_true, if_false]
      split <;> exact ⟨_, rfl⟩
  case call =>
    rcases transfer_operands hholds with ⟨hind, base, hbase⟩ | ⟨hind, target, htarget⟩
    · simp only [liftCall, hind, hbase, ok_bind, if_true]
      exact ⟨_, rfl⟩
    · simp only [liftCall, hind, htarget, ok_bind, Bool.false_eq_true, if_false]
      split <;> exact ⟨_, rfl⟩
  case ret =>
    refine liftRet_ok v s addr fun hop => ?_
    simpa [hop] using hholds
  case trap =>
    obtain ⟨target, htarget, hsort⟩ := hholds
    obtain ⟨address, rfl⟩ := Operand.eq_target (List.mem_singleton.1 hsort)
    simp only [liftTrap, Instruction.branchTarget, htarget, ok_bind]
    exact ⟨_, rfl⟩
  case stack =>
    obtain ⟨reg, hreg, hsort⟩ := hholds
    obtain ⟨code, width, rfl⟩ := Operand.eq_short (List.mem_singleton.1 hsort)
    simp only [liftStack, hreg, ok_bind]
    split <;> exact ⟨_, rfl⟩
  case scxt =>
    obtain ⟨⟨dst, hdst, hsort⟩, src, hsrc, hvalue⟩ := hholds
    obtain ⟨code, width, rfl⟩ := Operand.eq_short (List.mem_singleton.1 hsort)
    exact liftScxt_ok s addr hdst hsrc hvalue
  case move =>
    obtain ⟨⟨dst, hdst, hassign⟩, src, hsrc, hvalue⟩ := hholds
    exact liftMove_ok v s addr hdst hsrc hassign hvalue
  case moveExt =>
    obtain ⟨⟨dst, hdst, hassign⟩, src, hsrc, hvalue⟩ := hholds
    exact liftMoveExt_ok s addr hdst hsrc hassign hvalue
  case ext => exact absurd hfamily hext
  case named name => cases htakes
  all_goals exact ⟨_, rfl⟩

end Emitters

/-! ## Decoded instructions have a line -/

/-- A slot of an instruction has something to show: the condition, or an operand that is not the bare arguments of
an extension. -/
def Instruction.Shows (i : Instruction) (slot : Slot) : Prop :=
  (slot = .cond ∧ ∃ cond, i.cond = some cond) ∨
    (slot ≠ .cond ∧ ∃ op, i.operand slot = .ok op ∧ op.sort ≠ .extension)

theorem Instruction.shows_of_lookup {i : Instruction} {slot : Slot} {op : Operand}
    (hlookup : i.binds.lookup slot = some op) (hsort : (op.sort == .extension) = false)
    (hslot : (slot == .cond) = false) : i.Shows slot := by
  refine .inr ⟨ne_of_beq_false hslot, op, ?_, ne_of_beq_false hsort⟩
  simp only [operand, operand?, hlookup]

theorem Layout.Pair.sort_ne {entry : OpcodeEntry} {layout : Layout} {dst src : Operand}
    (h : layout.Pair entry dst src) : (dst.sort == .extension) = false ∧ (src.sort == .extension) = false := by
  cases h <;> exact ⟨rfl, rfl⟩

/-- What an instruction displays is there to be shown. -/
theorem Layout.Yields.shows {entry : OpcodeEntry} {pc : Int} {layout : Layout} {i : Instruction}
    (h : layout.Yields entry pc i) : ∀ slot ∈ i.display, i.Shows slot := by
  cases h with
  | pair operands =>
    obtain ⟨hdst, hsrc⟩ := operands.sort_ne
    simp only [OpcodeEntry.simple, OpcodeEntry.filled, List.forall_mem_cons, List.not_mem_nil, false_imp_iff,
      implies_true, and_true]
    exact ⟨Instruction.shows_of_lookup rfl hdst rfl, Instruction.shows_of_lookup rfl hsrc rfl⟩
  | extension encoded =>
    cases encoded with
    | atomic | bank =>
      simp only [OpcodeEntry.extending, OpcodeEntry.filled, Extension.shown, List.map_nil, List.nil_append,
        List.forall_mem_cons, List.not_mem_nil, false_imp_iff, implies_true, and_true]
      exact Instruction.shows_of_lookup rfl rfl rfl
    | segment | page | register =>
      simp only [OpcodeEntry.extending, OpcodeEntry.filled, Extension.shown, List.map_cons, List.map_nil,
        List.cons_append, List.nil_append, List.forall_mem_cons, List.not_mem_nil, false_imp_iff, implies_true,
        and_true]
      exact ⟨Instruction.shows_of_lookup rfl rfl rfl, Instruction.shows_of_lookup rfl rfl rfl⟩
  | plain => exact fun _ h => absurd h List.not_mem_nil
  | protectedOpcode => exact fun _ h => absurd h List.not_mem_nil
  | bitField dataFirst offset mask data =>
    simp only [OpcodeEntry.simple, OpcodeEntry.filled, List.forall_mem_cons, List.not_mem_nil, false_imp_iff,
      implies_true, and_true]
    exact ⟨Instruction.shows_of_lookup rfl rfl rfl, Instruction.shows_of_lookup rfl rfl rfl,
      Instruction.shows_of_lookup rfl rfl rfl⟩
  | bitJump | segmented =>
    simp only [OpcodeEntry.simple, OpcodeEntry.filled, List.forall_mem_cons, List.not_mem_nil, false_imp_iff,
      implies_true, and_true]
    exact ⟨Instruction.shows_of_lookup rfl rfl rfl, Instruction.shows_of_lookup rfl rfl rfl⟩
  | conditionalRelative | absolute | pointerBranch =>
    simp only [OpcodeEntry.filled, List.forall_mem_cons, List.not_mem_nil, false_imp_iff, implies_true, and_true]
    exact ⟨.inl ⟨rfl, _, rfl⟩, Instruction.shows_of_lookup rfl rfl rfl⟩
  | dstReg | srcReg | bit | relative | short | trap =>
    simp only [OpcodeEntry.simple, OpcodeEntry.filled, List.forall_mem_cons, List.not_mem_nil, false_imp_iff,
      implies_true, and_true]
    exact Instruction.shows_of_lookup rfl rfl rfl

theorem slotTokens_ok {i : Instruction} {slot : Slot} (s : Store) (addr : Int) (h : i.Shows slot) :
    ∃ tokens, slotTokens s addr i slot = .ok tokens := by
  rcases h with ⟨rfl, cond, hcond⟩ | ⟨hslot, op, hop, hsort⟩
  · exact ⟨[.text cond.text], by simp only [slotTokens, hcond]⟩
  · obtain ⟨tokens, htokens⟩ : ∃ tokens, operandTokens s addr slot op = .ok tokens := by
      cases op
      case extension ext => exact absurd rfl hsort
      all_goals exact ⟨_, rfl⟩
    refine ⟨tokens, ?_⟩
    unfold slotTokens
    split
    · exact absurd rfl hslot
    · rw [hop, ok_bind, htokens]

/-- If every member of a list has an answer, so has the list. -/
theorem mapM_ok {ε α β : Type} {f : α → Except ε β} {l : List α} (h : ∀ a ∈ l, ∃ b, f a = .ok b) :
    ∃ bs, l.mapM f = .ok bs := by
  induction l with
  | nil => exact ⟨[], rfl⟩
  | cons a rest ih =>
    obtain ⟨b, hb⟩ := h a List.mem_cons_self
    obtain ⟨bs, hbs⟩ := ih fun c hc => h c (List.mem_cons_of_mem _ hc)
    refine ⟨b :: bs, ?_⟩
    rw [List.mapM_cons, hb, ok_bind, hbs, ok_bind]
    rfl

/-- A decoded instruction has a line, whatever the store holds. -/
theorem render_ok {bytes : List UInt8} {addr : Int} {i : Instruction} (h : decode bytes addr = .ok i)
    (s : Store) : ∃ tokens, render s i addr = .ok tokens := by
  obtain ⟨entry, -, hyields⟩ := decode_yields h
  obtain ⟨operands, hoperands⟩ := mapM_ok fun slot hslot => slotTokens_ok s addr (hyields.shows slot hslot)
  simp only [render, hoperands, ok_bind]
  exact ⟨_, rfl⟩

end Lift166
