import Lift166.Flow
import Lift166.Proofs.Emitted

/-!
# Control flow and lifted code

A host takes the edges of its graph from the flow of an instruction, and what happens along them from the lifted
code. The two are found separately: the flow by looking at family, operation and condition, the code by the emitters.
Here the flow is shown to fix how the code transfers control. `Flow.Fits` says what each flow asks of the code, and
every decoded instruction meets it.
-/

namespace Lift166

open Il

/-! ## Statements that transfer control -/

/-- Whether a statement transfers control, or marks a place that control is transferred to. -/
def Il.Stmt.isControl : Stmt → Bool
  | .jump _ | .call _ | .ret _ | .noReturn | .ifElse .. | .goto _ | .label _ => true
  | _ => false

/-- The word with one bit set or cleared. -/
def bitUpdate (on : Bool) (pos : Fin 16) (word : Expr) : Expr :=
  if on then .quiet .or 2 word (.const 2 (bitMask pos)) else .quiet .and 2 word (.const 2 (bitHole pos))

/-- A statement that sets or clears one bit of a word and keeps the rest of the word, or that does nothing because
the hardware fixes the word. -/
inductive Il.Stmt.BitWrite : Stmt → Prop
  | register (r : Register) (on : Bool) (pos : Fin 16) :
      BitWrite (.setReg 2 none (.machine r) (bitUpdate on pos (.reg 2 (.machine r))))
  | memory (address : Int) (on : Bool) (pos : Fin 16) :
      BitWrite (.store 2 none (.pointer 3 address) (bitUpdate on pos (.load 2 (.pointer 3 address))))
  | discarded : BitWrite .nop

theorem Place.write_isControl (place : Place) (width : Nat) (value : Expr) (flags : Option FlagPolicy) :
    (place.write width value flags).isControl = false := by
  unfold Place.write
  split
  · rfl
  · split <;> rfl

theorem Operand.write_isControl {op : Operand} {s : Store} {addr : Int} {value : Expr} {flags : Option FlagPolicy}
    {stmt : Stmt} (h : op.write s addr value flags = .ok stmt) : stmt.isControl = false := by
  cases op
  case reg | mem | indirect =>
    cases h
    rfl
  case short =>
    cases h
    apply Place.write_isControl
  all_goals cases h

theorem Operand.step_isControl (op : Operand) (mode : IndirectMode) : ∀ stmt ∈ op.step mode, stmt.isControl = false := by
  intro stmt hstmt
  cases op
  case indirect base m width disp =>
    rw [Operand.step] at hstmt
    split at hstmt
    · rw [List.mem_singleton.1 hstmt]
      rfl
    · cases hstmt
  all_goals cases hstmt

theorem assignBit_bitWrite (s : Store) (addr offset : Int) (pos : Fin 16) (on : Bool) :
    (assignBit s addr offset pos on).BitWrite := by
  unfold assignBit
  generalize Place.ofBitOffset s addr offset = place
  cases place with
  | gpr r => exact .register r on pos
  | sfr address =>
    cases hfixed : fixedWord? address with
    | some value =>
      simp only [Place.write, hfixed]
      exact .discarded
    | none =>
      simp only [Place.write, Place.read, hfixed]
      exact .memory address on pos

/-- What a jump on a bit does to the bit is one statement at most. -/
theorem bitJumpEffect_cases (s : Store) (addr offset : Int) (pos : Fin 16) (operation : Option Operation) :
    bitJumpEffect s addr offset pos operation = [] ∨
      ∃ write : Stmt, write.BitWrite ∧ bitJumpEffect s addr offset pos operation = [write] := by
  unfold bitJumpEffect
  split
  · exact .inr ⟨_, assignBit_bitWrite .., rfl⟩
  · exact .inr ⟨_, assignBit_bitWrite .., rfl⟩
  · exact .inl rfl

/-! ## What a flow asks of the code -/

/-- The way in which the lifted code of the instruction at an address has to transfer control. -/
def Flow.Fits (addr : Int) (i : Instruction) (code : List Stmt) : Flow → Prop
  | .fallthrough => ∀ stmt ∈ code, stmt.isControl = false
  | .jump target => code = [.jump (.const 3 target)]
  | .branch target next false => next = addr + i.length ∧ ∃ cond yes no between, yes ≠ no ∧
      (between = [] ∨ ∃ write : Stmt, write.BitWrite ∧ between = [write]) ∧
      code = .ifElse cond yes no :: .label yes :: (between ++ [.jump (.const 3 target), .label no])
  | .branch target next true => next = addr + i.length ∧ ∃ cond yes no, yes ≠ no ∧
      code = [.ifElse cond yes no, .label yes, .call (.const 3 target), .goto no, .label no]
  | .call target | .trap target => code = [.call (.const 3 target)]
  | .indirect isCall => ∃ base mode width disp, i.operand .base = .ok (.indirect base mode width disp) ∧
      let dest : Expr := .quiet .or 3 (.const 3 (segmentBase addr)) (.quietUnary .zx 3 (.register 2 base))
      code = [if isCall then .call dest else .jump dest]
  | .ret => ∃ front dest, code = front ++ [.ret dest] ∧ ∀ stmt ∈ front, stmt.isControl = false
  | .noReturn => code = [.noReturn]

/-- Whether some members of the family do not go on to the next instruction. -/
def Family.transfers : Family → Bool
  | .bitJump | .jump | .call | .ret | .trap | .system => true
  | _ => false

theorem Flow.ofInstruction_plain {i : Instruction} (h : i.family.transfers = false) (addr : Int) :
    Flow.ofInstruction i addr = .ok .fallthrough := by
  unfold Flow.ofInstruction
  cases hfamily : i.family
  case bitJump | jump | call | ret | trap | system =>
    rw [hfamily] at h
    cases h
  all_goals rfl

theorem Flow.targetOf_eq {i : Instruction} {target : Int} (h : i.operand .target = .ok (.target target)) :
    Flow.targetOf i = .ok target := by
  unfold Instruction.operand at h
  split at h
  · next op hop =>
    cases h
    rw [targetOf, hop]
  · cases h

/-- The emitters test a condition just when the flow has one. -/
theorem Instruction.tested?_of_guard? (i : Instruction) :
    (i.guard? = none → i.tested? = none) ∧ ∀ expr, i.guard? = some expr → ∃ cond, i.tested? = some cond := by
  unfold Instruction.guard? Instruction.tested?
  cases i.cond with
  | none => exact ⟨fun _ => rfl, fun expr h => (by cases h)⟩
  | some cond =>
    cases cond
    case uc => exact ⟨fun _ => rfl, fun expr h => (by cases h)⟩
    all_goals exact ⟨fun h => (by cases h), fun _ _ => ⟨_, rfl⟩⟩

theorem straight_of_all {code : List Stmt} (h : code.all (fun stmt => !stmt.isControl) = true) :
    ∀ stmt ∈ code, stmt.isControl = false := by
  intro stmt hstmt
  have hplain := List.all_eq_true.1 h stmt hstmt
  rwa [Bool.not_eq_true'] at hplain

section Fits

variable {v : Variant} {s : Store} {addr : Int} {i : Instruction} {family : Family} {code : List Stmt}

/-- Code of a family that always goes on never transfers control. -/
theorem Emits.straight (h : Emits v s addr i family code) (hfamily : family.transfers = false) :
    ∀ stmt ∈ code, stmt.isControl = false := by
  cases h with
  | compare => exact List.forall_mem_cons.2 ⟨rfl, Operand.step_isControl _ _⟩
  | combine _ _ _ _ _ _ _ written =>
    exact List.forall_mem_cons.2 ⟨Operand.write_isControl written, Operand.step_isControl _ _⟩
  | bit | bitCombine | pop =>
    rw [List.forall_mem_singleton]
    apply Place.write_isControl
  | scxt => exact List.forall_mem_cons.2 ⟨rfl, List.forall_mem_singleton.2 (Place.write_isControl ..)⟩
  | @move dst src _ _ _ _ _ _ written =>
    -- the write stands between the steps of the two pointers
    intro stmt hstmt
    rw [List.mem_append, List.mem_cons, List.mem_append] at hstmt
    rcases hstmt with hpre | rfl | hsrc | hpost
    · exact Operand.step_isControl dst _ stmt hpre
    · exact Operand.write_isControl written
    · split at hsrc
      · cases hsrc
      · exact Operand.step_isControl src _ stmt hsrc
    · exact Operand.step_isControl dst _ stmt hpost
  | moveExt _ _ _ _ written => exact List.forall_mem_singleton.2 (Operand.write_isControl written)
  | cmpStep | unary | mul | div | shift | prior | bitCompare | bitField | nop | push | pushMove | extension
  | extensionByRegister =>
    exact straight_of_all rfl
  | _ => cases hfamily

theorem restoreOnReturn_isControl {restore : Stmt} (h : restoreOnReturn s addr i = .ok restore) :
    restore.isControl = false := by
  unfold restoreOnReturn at h
  split at h
  · cases h
    rfl
  · rw [bind_ok_iff] at h
    obtain ⟨op, -, h⟩ := h
    split at h
    · cases h
      apply Place.write_isControl
    · cases h
  · cases h
    rfl

/-- The flow of an instruction is found, and its code transfers control as the flow says. -/
theorem Emits.flow_fits (h : Emits v s addr i family code) (hfamily : i.family = family) :
    ∃ flow, Flow.ofInstruction i addr = .ok flow ∧ flow.Fits addr i code := by
  by_cases hplain : family.transfers = false
  · exact ⟨_, Flow.ofInstruction_plain (hfamily ▸ hplain) addr, h.straight hplain⟩
  unfold Flow.ofInstruction
  rw [hfamily]
  cases h with
  | bitJump bitOperand targetOperand _ =>
    rw [Flow.targetOf_eq targetOperand]
    exact ⟨_, rfl, rfl, _, 0, 1, _, Nat.zero_ne_one, bitJumpEffect_cases .., rfl⟩
  | indirectJump indirect baseOperand =>
    simp only [indirect]
    exact ⟨_, rfl, _, _, _, _, baseOperand, rfl⟩
  | jump direct targetOperand unguarded =>
    simp only [direct, Flow.targetOf_eq targetOperand, i.tested?_of_guard?.1 unguarded]
    exact ⟨_, rfl, rfl⟩
  | guardedJump direct targetOperand guarded =>
    obtain ⟨cond, hcond⟩ := i.tested?_of_guard?.2 _ guarded
    simp only [direct, Flow.targetOf_eq targetOperand, hcond]
    exact ⟨_, rfl, rfl, _, 0, 1, [], Nat.zero_ne_one, .inl rfl, rfl⟩
  | indirectCall indirect baseOperand =>
    simp only [indirect]
    exact ⟨_, rfl, _, _, _, _, baseOperand, rfl⟩
  | call direct targetOperand unguarded =>
    simp only [direct, Flow.targetOf_eq targetOperand, i.tested?_of_guard?.1 unguarded]
    exact ⟨_, rfl, rfl⟩
  | guardedCall direct targetOperand guarded =>
    obtain ⟨cond, hcond⟩ := i.tested?_of_guard?.2 _ guarded
    simp only [direct, Flow.targetOf_eq targetOperand, hcond]
    exact ⟨_, rfl, rfl, _, 0, 1, Nat.zero_ne_one, rfl⟩
  | linkedReturn | plainReturn => exact ⟨_, rfl, [], _, rfl, straight_of_all rfl⟩
  | @restoringReturn restore _ _ restored =>
    refine ⟨_, rfl, [.setTemp 2 0 (.pop 2), restore], _, rfl, ?_⟩
    exact List.forall_mem_cons.2 ⟨rfl, List.forall_mem_singleton.2 (restoreOnReturn_isControl restored)⟩
  | trap targetOperand =>
    rw [Flow.targetOf_eq targetOperand]
    exact ⟨_, rfl, rfl⟩
  | powerDown operation => exact ⟨_, congrArg _ (if_pos operation), rfl⟩
  | system operation => exact ⟨_, congrArg _ (if_neg operation), straight_of_all rfl⟩
  | _ => exact absurd rfl hplain

end Fits

/-- **The flow of a decoded instruction fixes how its lifted code transfers control.** -/
theorem flow_fits_lifted_code {bytes : List UInt8} {addr : Int} {i : Instruction} (h : decode bytes addr = .ok i)
    (l : Lifter) (s : Store) :
    ∃ flow code, Flow.ofInstruction i addr = .ok flow ∧ (l.lift s i addr).answer = .ok ⟨i.length, code⟩ ∧
      flow.Fits addr i code := by
  obtain ⟨code, hanswer, hemits⟩ := lift_emits h l s
  obtain ⟨flow, hflow, hfits⟩ := hemits.flow_fits rfl
  exact ⟨flow, code, hflow, hanswer, hfits⟩

/-- A call that is made where the zero flag is set. -/
def callIfZero : Instruction :=
  ⟨0xCA, "calla", .call, 4, [(.target, .target 0x11234)], [.cond, .target], none, some .z, some (.transfer .absolute)⟩

theorem flow_fits_lifted_code_callIfZero :
    decode [0xCA, 0x20, 0x34, 0x12] 0x10000 = .ok callIfZero ∧
      ∃ code, Flow.ofInstruction callIfZero 0x10000 = .ok (.branch 0x11234 0x10004 true) ∧
        ((⟨.v2, false⟩ : Lifter).lift (.empty .zero) callIfZero 0x10000).answer = .ok ⟨4, code⟩ ∧
        (Flow.branch 0x11234 0x10004 true).Fits 0x10000 callIfZero code := by
  have hdecode : decode [0xCA, 0x20, 0x34, 0x12] 0x10000 = .ok callIfZero := rfl
  obtain ⟨flow, code, hflow, hanswer, hfits⟩ := flow_fits_lifted_code hdecode ⟨.v2, false⟩ (.empty .zero)
  cases hflow
  exact ⟨hdecode, code, rfl, hanswer, hfits⟩

end Lift166
