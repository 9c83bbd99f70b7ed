import Lift166.Proofs.Step

/-!
# What lifting emits

The emitters look up operands, read and write them, and choose among a few forms. `Emits` lists these forms once, by
family, with what was found on the way; `lift_emits` says that lifting a decoded instruction always ends in one of
them. A property of lifted code is proved by going through the list.
-/

namespace Lift166

open Il

section Forms

variable (v : Variant) (s : Store) (addr : Int) (i : Instruction)

/-- The forms that the lifted code of an instruction can have, by family. -/
inductive Emits : Family → List Stmt → Prop
  | compare {dst src : Operand} {width : Nat} {lhs rhs : Expr}
      (dstOperand : i.operand .dst = .ok dst) (srcOperand : i.operand .src = .ok src)
      (operation : i.operation = some (.alu .cmp)) (dstWidth : dst.width? = some width)
      (dstValue : dst.read s addr = .ok lhs) (srcValue : src.read s addr = .ok rhs) :
      Emits .alu (.eval (AluOp.cmp.result width lhs rhs i.flags) :: src.step .postInc)
  | combine {dst src : Operand} {op : AluOp} {width : Nat} {lhs rhs : Expr} {stmt : Stmt}
      (dstOperand : i.operand .dst = .ok dst) (srcOperand : i.operand .src = .ok src)
      (operation : i.operation = some (.alu op)) (stored : op ≠ .cmp) (dstWidth : dst.width? = some width)
      (dstValue : dst.read s addr = .ok lhs) (srcValue : src.read s addr = .ok rhs)
      (written : dst.write s addr (op.result width lhs rhs i.flags) none = .ok stmt) :
      Emits .alu (stmt :: src.step .postInc)
  | cmpStep {r : Register} {width : Nat} {src : Operand} {rhs stepped : Expr} {amount : Int}
      (dstOperand : i.operand .dst = .ok (.reg r width)) (srcOperand : i.operand .src = .ok src)
      (srcValue : src.read s addr = .ok rhs) (step : i.stepAmount = .ok amount)
      (result : stepped = if 0 < amount then Expr.quiet .add 2 (.register 2 r) (.const 2 amount)
        else .quiet .sub 2 (.register 2 r) (.const 2 (-amount))) :
      Emits .cmpStep [.eval (.binary .sub 2 i.flags (.register 2 r) rhs), .setRegister 2 r stepped]
  | unary {r : Register} {width : Nat} {op : UnaryOp} (dstOperand : i.operand .dst = .ok (.reg r width))
      (chosen : op = if i.operation = some .neg then .neg else .not) :
      Emits .unary [.setRegister width r (.unary op width i.flags (.register width r))]
  | mul {lhs rhs : Register} {lhsWidth rhsWidth : Nat} {op : BinaryOp}
      (dstOperand : i.operand .dst = .ok (.reg lhs lhsWidth)) (srcOperand : i.operand .src = .ok (.reg rhs rhsWidth))
      (chosen : op = if i.operation = some .signed then .mulsDp else .muluDp) :
      Emits .mul [.setTemp 4 0 (.binary op 4 i.flags (.register 2 lhs) (.register 2 rhs)),
        SpecialRegister.mdl.store (.quietUnary .lowPart 2 (.temp 4 0)),
        SpecialRegister.mdh.store (.quietUnary .lowPart 2 (.quiet .lsr 4 (.temp 4 0) (.const 1 16)))]
  | div {r : Register} {width : Nat} {quotient remainder : BinaryOp} {dividend : Expr}
      (srcOperand : i.operand .src = .ok (.reg r width))
      (chosen : divisionOf i.operation = (quotient, remainder, dividend)) :
      Emits .div [.setTemp 2 0 (.binary quotient 2 i.flags dividend (.register 2 r)),
        .setTemp 2 1 (.quiet remainder 2 dividend (.register 2 r)),
        SpecialRegister.mdl.store (.temp 2 0), SpecialRegister.mdh.store (.temp 2 1)]
  | shift {r : Register} {width : Nat} {count : Operand} {amount : Expr}
      (dstOperand : i.operand .dst = .ok (.reg r width)) (srcOperand : i.operand .src = .ok count)
      (counted : shiftAmount s addr count = .ok amount) :
      Emits .shift [.setRegister 2 r (.binary (shiftOp i.operation) 2 i.flags (.register 2 r) amount)]
  | prior {r : Register} {width : Nat} (dstOperand : i.operand .dst = .ok (.reg r width)) :
      Emits .prior [.setRegister 2 r .unimplemented]
  | bit {offset : Int} {pos : Fin 16} (bitOperand : i.operand .bit = .ok (.bit offset pos)) :
      Emits .bit [assignBit s addr offset pos (i.operation = some .set)]
  | bitCompare {dstOffset srcOffset : Int} {dstPos srcPos : Fin 16}
      (dstOperand : i.operand .dst = .ok (.bit dstOffset dstPos))
      (srcOperand : i.operand .src = .ok (.bit srcOffset srcPos))
      (operation : i.operation = some (.bitLogic .bcmp)) :
      Emits .bitLogic (compareBits (bitValueOf s addr dstOffset dstPos) (bitValueOf s addr srcOffset srcPos))
  | bitCombine {dstOffset srcOffset : Int} {dstPos srcPos : Fin 16}
      (dstOperand : i.operand .dst = .ok (.bit dstOffset dstPos))
      (srcOperand : i.operand .src = .ok (.bit srcOffset srcPos))
      (operation : i.operation ≠ some (.bitLogic .bcmp)) :
      Emits .bitLogic [(Place.ofBitOffset s addr dstOffset).write 2
        (combineBit i.operation ((Place.ofBitOffset s addr dstOffset).read 2) (bitValueOf s addr srcOffset srcPos)
          dstPos) i.flags]
  | bitField : Emits .bitField [.unimplemented]
  | bitJump {offset target : Int} {pos : Fin 16} {expected : Nat}
      (bitOperand : i.operand .bit = .ok (.bit offset pos)) (targetOperand : i.operand .target = .ok (.target target))
      (tested : expected = if jumpsOnSet i.operation then bitMask pos else 0) :
      Emits .bitJump (.ifElse (.quiet .equal 2 (.quiet .and 2 (bitWordOf s addr offset) (.const 2 (bitMask pos)))
          (.const 2 expected)) 0 1 :: .label 0
        :: (bitJumpEffect s addr offset pos i.operation ++ [.jump (.const 3 target), .label 1]))
  | indirectJump {base : Register} {mode : IndirectMode} {width : Nat} {disp : Int} (indirect : i.isIndirect = true)
      (baseOperand : i.operand .base = .ok (.indirect base mode width disp)) :
      Emits .jump [.jump (inOwnSegment addr base)]
  | jump {target : Int} (direct : i.isIndirect = false) (targetOperand : i.operand .target = .ok (.target target))
      (unguarded : i.guard? = none) : Emits .jump [.jump (.const 3 target)]
  | guardedJump {target : Int} {cond : Expr} (direct : i.isIndirect = false)
      (targetOperand : i.operand .target = .ok (.target target)) (guarded : i.guard? = some cond) :
      Emits .jump [.ifElse cond 0 1, .label 0, .jump (.const 3 target), .label 1]
  | indirectCall {base : Register} {mode : IndirectMode} {width : Nat} {disp : Int} (indirect : i.isIndirect = true)
      (baseOperand : i.operand .base = .ok (.indirect base mode width disp)) :
      Emits .call [.call (inOwnSegment addr base)]
  | call {target : Int} (direct : i.isIndirect = false) (targetOperand : i.operand .target = .ok (.target target))
      (unguarded : i.guard? = none) : Emits .call [.call (.const 3 target)]
  | guardedCall {target : Int} {cond : Expr} (direct : i.isIndirect = false)
      (targetOperand : i.operand .target = .ok (.target target)) (guarded : i.guard? = some cond) :
      Emits .call [.ifElse cond 0 1, .label 0, .call (.const 3 target), .goto 1, .label 1]
  | linkedReturn {link : Register} (linked : v.linkRegister = some link) : Emits .ret [.ret (.register 3 link)]
  | plainReturn (unlinked : v.linkRegister = none) (operation : i.operation = some (.ret .ret)) :
      Emits .ret [.ret (.pop 2)]
  | restoringReturn {restore : Stmt} (unlinked : v.linkRegister = none) (operation : i.operation ≠ some (.ret .ret))
      (restored : restoreOnReturn s addr i = .ok restore) :
      Emits .ret [.setTemp 2 0 (.pop 2), restore, .ret (.temp 2 0)]
  | trap {target : Int} (targetOperand : i.operand .target = .ok (.target target)) :
      Emits .trap [.call (.const 3 target)]
  | powerDown (operation : i.operation = some .noreturn) : Emits .system [.noReturn]
  | system (operation : i.operation ≠ some .noreturn) : Emits .system [.unimplemented]
  | nop : Emits .nop [.nop]
  | push {code : Fin 256} {width : Nat} (regOperand : i.operand .reg = .ok (.short code width))
      (operation : i.operation = some .push) : Emits .stack [.push 2 ((Place.ofShort s addr code.val 2).read 2)]
  | pop {code : Fin 256} {width : Nat} (regOperand : i.operand .reg = .ok (.short code width))
      (operation : i.operation ≠ some .push) :
      Emits .stack [(Place.ofShort s addr code.val 2).write 2 (.pop 2) i.flags]
  | scxt {code : Fin 256} {width : Nat} {src : Operand} {value : Expr}
      (dstOperand : i.operand .dst = .ok (.short code width)) (srcOperand : i.operand .src = .ok src)
      (srcValue : src.read s addr = .ok value) :
      Emits .scxt [.push 2 ((Place.ofShort s addr code.val 2).read 2),
        (Place.ofShort s addr code.val width).write width value none]
  | pushMove {dst src : Operand} {value : Expr} (dstOperand : i.operand .dst = .ok dst)
      (srcOperand : i.operand .src = .ok src) (moved : movedValue v s addr src = .ok value)
      (stacked : dst.isStackSlot v .preDec = true) : Emits .move [.push 2 value]
  | move {dst src : Operand} {value : Expr} {stmt : Stmt} (dstOperand : i.operand .dst = .ok dst)
      (srcOperand : i.operand .src = .ok src) (moved : movedValue v s addr src = .ok value)
      (unstacked : dst.isStackSlot v .preDec = false) (written : dst.write s addr value i.flags = .ok stmt) :
      Emits .move (dst.step .preDec ++ stmt
        :: ((if src.isStackSlot v .postInc then [] else src.step .postInc) ++ dst.step .postInc))
  | moveExt {dst src : Operand} {op : UnaryOp} {byte : Expr} {stmt : Stmt} (dstOperand : i.operand .dst = .ok dst)
      (srcOperand : i.operand .src = .ok src) (srcValue : src.read s addr = .ok byte)
      (chosen : op = if i.operation = some .sx then .sx else .zx)
      (written : dst.write s addr (.quietUnary op 2 byte) i.flags = .ok stmt) : Emits .moveExt [stmt]
  | extension {ext : Extension} (extOperand : i.operand .ext = .ok (.extension ext)) (known : ext.register = none) :
      Emits .ext [.nop]
  | extensionByRegister {ext : Extension} {r : Register} (extOperand : i.operand .ext = .ok (.extension ext))
      (unknown : ext.register = some r) : Emits .ext [.unimplemented]

end Forms

section Inversion

variable {v : Variant} {s : Store} {addr : Int} {i : Instruction} {code : List Stmt}

theorem aluOp_eq_ok {op : AluOp} (h : i.aluOp = .ok op) : i.operation = some (.alu op) := by
  unfold Instruction.aluOp at h
  split at h
  · next hop =>
    cases h
    exact hop
  · cases h

theorem register_eq_ok {slot : Slot} {r : Register} {width : Nat} (h : i.register slot = .ok (r, width)) :
    i.operand slot = .ok (.reg r width) := by
  unfold Instruction.register at h
  split at h
  · next hop =>
    cases h
    exact hop
  · cases h
  · cases h

theorem branchBase_eq_ok {base : Register} (h : i.branchBase = .ok base) :
    ∃ mode width disp, i.operand .base = .ok (.indirect base mode width disp) := by
  simp only [Instruction.branchBase, bind_ok_iff] at h
  obtain ⟨op, hop, h⟩ := h
  split at h
  · next base' mode width disp =>
    cases h
    exact ⟨mode, width, disp, hop⟩
  · cases h

theorem branchTarget_eq_ok {target : Expr} (h : i.branchTarget = .ok target) :
    ∃ address, i.operand .target = .ok (.target address) ∧ target = .const 3 address := by
  simp only [Instruction.branchTarget, bind_ok_iff] at h
  obtain ⟨op, hop, h⟩ := h
  split at h
  · next address =>
    cases h
    exact ⟨address, hop, rfl⟩
  · cases h

theorem emits_alu (h : liftAlu s addr i = .ok code) : Emits v s addr i .alu code := by
  simp only [liftAlu, bind_ok_iff] at h
  obtain ⟨dst, hdst, src, hsrc, op, hop, h⟩ := h
  have hoperation := aluOp_eq_ok hop
  split at h
  · cases h
  · next width hwidth =>
    simp only [bind_ok_iff] at h
    obtain ⟨lhs, hlhs, rhs, hrhs, h⟩ := h
    split at h
    · cases h
      exact .compare hdst hsrc hoperation hwidth hlhs hrhs
    · next hcmp =>
      simp only [bind_ok_iff] at h
      obtain ⟨stmt, hstmt, h⟩ := h
      cases h
      exact .combine hdst hsrc hoperation hcmp hwidth hlhs hrhs hstmt

theorem emits_cmpStep (h : liftCmpStep s addr i = .ok code) : Emits v s addr i .cmpStep code := by
  simp only [liftCmpStep, bind_ok_iff] at h
  obtain ⟨dst, hdst, src, hsrc, h⟩ := h
  split at h
  · simp only [bind_ok_iff] at h
    obtain ⟨rhs, hrhs, amount, hamount, h⟩ := h
    cases h
    exact .cmpStep hdst hsrc hrhs hamount rfl
  · cases h

theorem emits_mul (h : liftMul i = .ok code) : Emits v s addr i .mul code := by
  simp only [liftMul, bind_ok_iff] at h
  obtain ⟨dst, hdst, src, hsrc, h⟩ := h
  split at h
  · cases h
    exact .mul hdst hsrc rfl
  · cases h

theorem emits_div (h : liftDiv i = .ok code) : Emits v s addr i .div code := by
  simp only [liftDiv, bind_ok_iff] at h
  obtain ⟨⟨r, width⟩, hr, h⟩ := h
  cases h
  exact .div (register_eq_ok hr) rfl

theorem emits_shift (h : liftShift s addr i = .ok code) : Emits v s addr i .shift code := by
  simp only [liftShift, bind_ok_iff] at h
  obtain ⟨dst, hdst, src, hsrc, h⟩ := h
  split at h
  · simp only [bind_ok_iff] at h
    obtain ⟨amount, hamount, h⟩ := h
    cases h
    exact .shift hdst hsrc hamount
  · cases h

theorem emits_bit (h : liftBit s addr i = .ok code) : Emits v s addr i .bit code := by
  simp only [liftBit, bind_ok_iff] at h
  obtain ⟨bit, hbit, h⟩ := h
  split at h
  · cases h
    exact .bit hbit
  · cases h

theorem emits_bitLogic (h : liftBitLogic s addr i = .ok code) : Emits v s addr i .bitLogic code := by
  simp only [liftBitLogic, bind_ok_iff] at h
  obtain ⟨dst, hdst, src, hsrc, h⟩ := h
  split at h
  · split at h
    · next hop =>
      cases h
      exact .bitCompare hdst hsrc hop
    · next hop =>
      cases h
      exact .bitCombine hdst hsrc hop
  · cases h

theorem emits_bitJump (h : liftBitJump s addr i = .ok code) : Emits v s addr i .bitJump code := by
  simp only [liftBitJump, bind_ok_iff] at h
  obtain ⟨bit, hbit, target, htarget, h⟩ := h
  split at h
  · cases h
    exact .bitJump hbit htarget rfl
  · cases h

theorem emits_jump (h : liftJump addr i = .ok code) : Emits v s addr i .jump code := by
  unfold liftJump at h
  split at h
  · next hindirect =>
    rw [bind_ok_iff] at h
    obtain ⟨base, hbase, h⟩ := h
    obtain ⟨mode, width, disp, hoperand⟩ := branchBase_eq_ok hbase
    cases h
    exact .indirectJump hindirect hoperand
  · next hdirect =>
    rw [bind_ok_iff] at h
    obtain ⟨target, htarget, h⟩ := h
    obtain ⟨address, hoperand, rfl⟩ := branchTarget_eq_ok htarget
    rw [Bool.not_eq_true] at hdirect
    split at h
    · next hguard =>
      cases h
      exact .jump hdirect hoperand hguard
    · next cond hguard =>
      cases h
      exact .guardedJump hdirect hoperand hguard

theorem emits_call (h : liftCall addr i = .ok code) : Emits v s addr i .call code := by
  unfold liftCall at h
  split at h
  · next hindirect =>
    rw [bind_ok_iff] at h
    obtain ⟨base, hbase, h⟩ := h
    obtain ⟨mode, width, disp, hoperand⟩ := branchBase_eq_ok hbase
    cases h
    exact .indirectCall hindirect hoperand
  · next hdirect =>
    rw [bind_ok_iff] at h
    obtain ⟨target, htarget, h⟩ := h
    obtain ⟨address, hoperand, rfl⟩ := branchTarget_eq_ok htarget
    rw [Bool.not_eq_true] at hdirect
    split at h
    · next hguard =>
      cases h
      exact .call hdirect hoperand hguard
    · next cond hguard =>
      cases h
      exact .guardedCall hdirect hoperand hguard

theorem emits_ret (h : liftRet v s addr i = .ok code) : Emits v s addr i .ret code := by
  unfold liftRet at h
  split at h
  · next link hlink =>
    cases h
    exact .linkedReturn hlink
  · next hlink =>
    split at h
    · next hop =>
      cases h
      exact .plainReturn hlink hop
    · next hop =>
      rw [bind_ok_iff] at h
      obtain ⟨restore, hrestore, h⟩ := h
      cases h
      exact .restoringReturn hlink hop hrestore

theorem emits_stack (h : liftStack s addr i = .ok code) : Emits v s addr i .stack code := by
  simp only [liftStack, bind_ok_iff] at h
  obtain ⟨reg, hreg, h⟩ := h
  split at h
  · split at h
    · next hop =>
      cases h
      exact .push hreg hop
    · next hop =>
      cases h
      exact .pop hreg hop
  · cases h

theorem emits_scxt (h : liftScxt s addr i = .ok code) : Emits v s addr i .scxt code := by
  simp only [liftScxt, bind_ok_iff] at h
  obtain ⟨dst, hdst, src, hsrc, h⟩ := h
  split at h
  · simp only [bind_ok_iff] at h
    obtain ⟨value, hvalue, stmt, hstmt, h⟩ := h
    cases hstmt
    cases h
    exact .scxt hdst hsrc hvalue
  · cases h

theorem emits_move (h : liftMove v s addr i = .ok code) : Emits v s addr i .move code := by
  simp only [liftMove, bind_ok_iff] at h
  obtain ⟨dst, hdst, src, hsrc, value, hvalue, h⟩ := h
  split at h
  · next hslot =>
    cases h
    exact .pushMove hdst hsrc hvalue hslot
  · next hslot =>
    simp only [bind_ok_iff] at h
    obtain ⟨stmt, hstmt, h⟩ := h
    cases h
    exact .move hdst hsrc hvalue (Bool.not_eq_true _ ▸ hslot) hstmt

theorem emits_moveExt (h : liftMoveExt s addr i = .ok code) : Emits v s addr i .moveExt code := by
  simp only [liftMoveExt, bind_ok_iff] at h
  obtain ⟨dst, hdst, src, hsrc, byte, hbyte, stmt, hstmt, h⟩ := h
  cases h
  exact .moveExt hdst hsrc hbyte rfl hstmt

/-- Every answer of the emitters is on the list. -/
theorem emits_of_emit (h : emit v s addr i = .ok code) : Emits v s addr i i.family code := by
  unfold emit at h
  cases hfamily : i.family
  all_goals rw [hfamily] at h
  case alu => exact emits_alu h
  case cmpStep => exact emits_cmpStep h
  case unary =>
    simp only [liftUnary, bind_ok_iff] at h
    obtain ⟨⟨r, width⟩, hr, h⟩ := h
    cases h
    exact .unary (register_eq_ok hr) rfl
  case mul => exact emits_mul h
  case div => exact emits_div h
  case shift => exact emits_shift h
  case prior =>
    simp only [liftPrior, bind_ok_iff] at h
    obtain ⟨⟨r, width⟩, hr, h⟩ := h
    cases h
    exact .prior (register_eq_ok hr)
  case bit => exact emits_bit h
  case bitLogic => exact emits_bitLogic h
  case bitField =>
    cases h
    exact .bitField
  case bitJump => exact emits_bitJump h
  case jump => exact emits_jump h
  case call => exact emits_call h
  case ret => exact emits_ret h
  case trap =>
    simp only [liftTrap, bind_ok_iff] at h
    obtain ⟨target, htarget, h⟩ := h
    obtain ⟨address, hoperand, rfl⟩ := branchTarget_eq_ok htarget
    cases h
    exact .trap hoperand
  case system =>
    cases h
    split
    · next hop => exact .powerDown hop
    · next hop => exact .system hop
  case nop =>
    cases h
    exact .nop
  case stack => exact emits_stack h
  case scxt => exact emits_scxt h
  case move => exact emits_move h
  case moveExt => exact emits_moveExt h
  case ext => cases h
  case named => cases h

end Inversion

/-- Lifting a decoded instruction gives one of the forms of its family, under any store. -/
theorem lift_emits {bytes : List UInt8} {addr : Int} {i : Instruction} (h : decode bytes addr = .ok i) (l : Lifter)
    (s : Store) :
    ∃ code, (l.lift s i addr).answer = .ok ⟨i.length, code⟩ ∧ Emits l.variant s addr i i.family code := by
  by_cases hext : i.family = .ext
  · obtain ⟨layout, ext, hencoded, hoperand⟩ := extension_of_decode h hext
    have hfound : i.operand .ext = .ok (.extension ext) := by rw [Instruction.operand, hoperand]
    rw [(lift_extension l s hext).1, hext]
    cases hreg : ext.register with
    | some r =>
      rw [liftExtension_register s hoperand hreg]
      exact ⟨_, rfl, .extensionByRegister hfound hreg⟩
    | none =>
      obtain ⟨t, hplaced, -⟩ := s.placeAll_ok (addr + i.length) hencoded.span_val.symm ext.overlays
      rw [liftExtension_immediate hoperand hreg hplaced]
      exact ⟨_, rfl, .extension hfound hreg⟩
  · obtain ⟨code, hcode⟩ := emit_ok l.variant s addr (complete_of_decode h) hext
    exact ⟨code, (lift_plain l s hext hcode).1, emits_of_emit hcode⟩

end Lift166
