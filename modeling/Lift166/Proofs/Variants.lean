import Lift166.Proofs.Queries
import Lift166.Proofs.References
import Lift166.Proofs.StackBalance

/-!
# What a variant changes

Variants share one opcode table and one store, and differ in two respects that lifting looks at: whether there is a
link register, and which register is the stack pointer. `Instruction.TellsApart` lists the instructions where this
shows. Everywhere else two variants give the same lifted code, and the flow, the line, the length and the store are
the same in any case.
-/

namespace Lift166

open Il

/-- The instruction is lifted in different ways for the two variants: it is a return and just one of them has a link
register, or a word is moved to or from a location that steps the stack pointer of just one of them. -/
inductive Instruction.TellsApart (i : Instruction) (v w : Variant) : Prop
  | ret (family : i.family = .ret) (link : ¬(v.linkRegister.isSome ↔ w.linkRegister.isSome))
  | push (family : i.family = .move) {base : Register} {disp : Int}
      (dst : i.operand .dst = .ok (.indirect base .preDec 2 disp))
      (stack : ¬(base = v.stackPointer ↔ base = w.stackPointer))
  | pop (family : i.family = .move) {base : Register} {disp : Int}
      (src : i.operand .src = .ok (.indirect base .postInc 2 disp))
      (stack : ¬(base = v.stackPointer ↔ base = w.stackPointer))

theorem Instruction.TellsApart.family_cases {i : Instruction} {v w : Variant} (h : i.TellsApart v w) :
    i.family = .ret ∨ i.family = .move := by
  cases h with
  | ret family => exact .inl family
  | push family => exact .inr family
  | pop family => exact .inr family

section Codes

variable {v w : Variant} {s : Store} {addr : Int} {i : Instruction} {code code' : List Stmt}

/-! ## Returns -/

/-- The variants that have a link register have the same one. -/
theorem linkRegister_eq_of_isSome (hv : v ∈ Variant.all) (hw : w ∈ Variant.all)
    (h : v.linkRegister.isSome ↔ w.linkRegister.isSome) : v.linkRegister = w.linkRegister := by
  cases hlink : v.linkRegister with
  | none =>
    rw [hlink] at h
    cases hlink' : w.linkRegister with
    | none => rfl
    | some link =>
      rw [hlink'] at h
      cases h.2 rfl
  | some link =>
    rw [hlink] at h
    obtain ⟨link', hlink'⟩ := Option.isSome_iff_exists.1 (h.1 rfl)
    rw [hlink', linkRegister_eq hv hlink, linkRegister_eq hw hlink']

/-- A return without a link register takes something off the stack. -/
theorem code_ne_of_link {link : Register} (hcode : Emits v s addr i .ret code) (hcode' : Emits w s addr i .ret code')
    (hlink : v.linkRegister = some link) (hlink' : w.linkRegister = none) : code ≠ code' := by
  cases hcode with
  | linkedReturn =>
    cases hcode' with
    | linkedReturn linked =>
      rw [hlink'] at linked
      cases linked
    | plainReturn =>
      intro h
      cases h
    | restoringReturn =>
      intro h
      cases h
  | plainReturn unlinked =>
    rw [hlink] at unlinked
    cases unlinked
  | restoringReturn unlinked =>
    rw [hlink] at unlinked
    cases unlinked

theorem ret_code_eq_iff (hv : v ∈ Variant.all) (hw : w ∈ Variant.all) (hfamily : i.family = .ret)
    (hcode : emit v s addr i = .ok code) (hcode' : emit w s addr i = .ok code') :
    code = code' ↔ (v.linkRegister.isSome ↔ w.linkRegister.isSome) := by
  constructor
  · intro heq
    have hemits := emits_of_emit hcode
    have hemits' := emits_of_emit hcode'
    rw [hfamily] at hemits hemits'
    cases hlink : v.linkRegister with
    | none =>
      cases hlink' : w.linkRegister with
      | none => rfl
      | some link => exact absurd heq.symm (code_ne_of_link hemits' hemits hlink' hlink)
    | some link =>
      cases hlink' : w.linkRegister with
      | none => exact absurd heq (code_ne_of_link hemits hemits' hlink hlink')
      | some link' => simp
  · intro hsome
    have hlink := linkRegister_eq_of_isSome hv hw hsome
    simp only [emit, hfamily, liftRet, hlink] at hcode hcode'
    exact Except.ok.inj (hcode.symm.trans hcode')

/-! ## Moves -/

theorem Operand.isStackSlot_iff {op : Operand} {mode : IndirectMode} :
    op.isStackSlot v mode = true ↔ ∃ disp, op = .indirect v.stackPointer mode 2 disp := by
  cases op with
  | indirect base m width disp =>
    simp only [isStackSlot, Bool.and_eq_true, beq_iff_eq, indirect.injEq, exists_and_left, exists_eq', and_true]
    exact and_comm
  | _ => simp [isStackSlot]

/-- An operand is the top of the stack for both variants or for neither, unless it steps the stack pointer of just
one of them. -/
theorem Operand.isStackSlot_eq_iff {op : Operand} {mode : IndirectMode} :
    op.isStackSlot v mode = op.isStackSlot w mode ↔
      ∀ base disp, op = .indirect base mode 2 disp → (base = v.stackPointer ↔ base = w.stackPointer) := by
  rw [Bool.eq_iff_iff, isStackSlot_iff, isStackSlot_iff]
  constructor
  · rintro hslots base disp rfl
    simpa [eq_comm] using hslots
  · intro hbase
    constructor
    · rintro ⟨disp, rfl⟩
      exact ⟨disp, by rw [← (hbase _ disp rfl).1 rfl]⟩
    · rintro ⟨disp, rfl⟩
      exact ⟨disp, by rw [← (hbase _ disp rfl).2 rfl]⟩

/-- The top of the stack is a location that is stepped, by one statement. -/
theorem Operand.step_length {op : Operand} {mode : IndirectMode} (h : op.isStackSlot v mode = true) :
    (op.step mode).length = 1 := by
  obtain ⟨disp, rfl⟩ := isStackSlot_iff.1 h
  simp [step]

/-- What is popped for one variant is loaded for the other. -/
theorem movedValue_ne {src : Operand} {value value' : Expr} (hvalue : movedValue v s addr src = .ok value)
    (hvalue' : movedValue w s addr src = .ok value') (hslot : src.isStackSlot v .postInc = true)
    (hslot' : src.isStackSlot w .postInc = false) : value ≠ value' := by
  obtain ⟨disp, rfl⟩ := Operand.isStackSlot_iff.1 hslot
  rw [movedValue, if_pos hslot] at hvalue
  rw [movedValue, hslot'] at hvalue'
  cases hvalue
  cases hvalue'
  intro h
  cases h

/-- A move is a push, or one statement with the steps of its operands around it. -/
theorem Emits.move_form {dst src : Operand} (h : Emits v s addr i .move code) (hdst : i.operand .dst = .ok dst)
    (hsrc : i.operand .src = .ok src) :
    ∃ value stmt, movedValue v s addr src = .ok value ∧
      code = if dst.isStackSlot v .preDec then [.push 2 value]
        else dst.step .preDec ++ stmt
          :: ((if src.isStackSlot v .postInc then [] else src.step .postInc) ++ dst.step .postInc) := by
  cases h with
  | pushMove dstOperand srcOperand moved stacked =>
    cases hdst.symm.trans dstOperand
    cases hsrc.symm.trans srcOperand
    exact ⟨_, .nop, moved, (if_pos stacked).symm⟩
  | move dstOperand srcOperand moved unstacked =>
    cases hdst.symm.trans dstOperand
    cases hsrc.symm.trans srcOperand
    exact ⟨_, _, moved, (if_neg (Bool.eq_false_iff.1 unstacked)).symm⟩

section Operands

variable {dst src : Operand} (hdst : i.operand .dst = .ok dst) (hsrc : i.operand .src = .ok src)
  (hcode : Emits v s addr i .move code) (hcode' : Emits w s addr i .move code')

include hdst hsrc hcode hcode'

/-- A push for one variant is a step and a store for the other. -/
theorem code_ne_of_dst (hslot : dst.isStackSlot v .preDec = true) (hslot' : dst.isStackSlot w .preDec = false) :
    code ≠ code' := by
  obtain ⟨value, stmt, -, rfl⟩ := hcode.move_form hdst hsrc
  obtain ⟨value', stmt', -, rfl⟩ := hcode'.move_form hdst hsrc
  have hstep := Operand.step_length hslot
  rw [if_pos hslot, if_neg (Bool.eq_false_iff.1 hslot')]
  intro heq
  have hlength := congrArg List.length heq
  simp only [List.length_append, List.length_cons, List.length_nil] at hlength
  omega

/-- A pop for one variant is a load and a step for the other. -/
theorem code_ne_of_src (hsame : dst.isStackSlot v .preDec = dst.isStackSlot w .preDec)
    (hslot : src.isStackSlot v .postInc = true) (hslot' : src.isStackSlot w .postInc = false) : code ≠ code' := by
  obtain ⟨value, stmt, hvalue, rfl⟩ := hcode.move_form hdst hsrc
  obtain ⟨value', stmt', hvalue', rfl⟩ := hcode'.move_form hdst hsrc
  have hstep := Operand.step_length hslot
  rw [hsame, if_pos hslot, if_neg (Bool.eq_false_iff.1 hslot')]
  intro heq
  by_cases hpush : dst.isStackSlot w .preDec = true
  · rw [if_pos hpush, if_pos hpush] at heq
    cases heq
    exact movedValue_ne hvalue hvalue' hslot hslot' rfl
  · rw [if_neg hpush, if_neg hpush] at heq
    have hlength := congrArg List.length heq
    simp only [List.length_append, List.length_cons, List.length_nil] at hlength
    omega

end Operands

theorem move_code_eq_iff {dst src : Operand} (hfamily : i.family = .move) (hdst : i.operand .dst = .ok dst)
    (hsrc : i.operand .src = .ok src) (hcode : emit v s addr i = .ok code) (hcode' : emit w s addr i = .ok code') :
    code = code' ↔ dst.isStackSlot v .preDec = dst.isStackSlot w .preDec ∧
      src.isStackSlot v .postInc = src.isStackSlot w .postInc := by
  constructor
  · intro heq
    have hemits := emits_of_emit hcode
    have hemits' := emits_of_emit hcode'
    rw [hfamily] at hemits hemits'
    have hsame : dst.isStackSlot v .preDec = dst.isStackSlot w .preDec := by
      cases hslot : dst.isStackSlot v .preDec <;> cases hslot' : dst.isStackSlot w .preDec
      · rfl
      · exact absurd heq.symm (code_ne_of_dst hdst hsrc hemits' hemits hslot' hslot)
      · exact absurd heq (code_ne_of_dst hdst hsrc hemits hemits' hslot hslot')
      · rfl
    refine ⟨hsame, ?_⟩
    cases hslot : src.isStackSlot v .postInc <;> cases hslot' : src.isStackSlot w .postInc
    · rfl
    · exact absurd heq.symm (code_ne_of_src hdst hsrc hemits' hemits hsame.symm hslot' hslot)
    · exact absurd heq (code_ne_of_src hdst hsrc hemits hemits' hsame hslot hslot')
    · rfl
  · rintro ⟨hpush, hpop⟩
    simp only [emit, hfamily, liftMove, movedValue, hdst, hsrc, ok_bind, hpush, hpop] at hcode hcode'
    exact Except.ok.inj (hcode.symm.trans hcode')

/-! ## Any instruction -/

/-- No other family looks at the variant. -/
theorem emit_variant (v w : Variant) (s : Store) (addr : Int) (hret : i.family ≠ .ret) (hmove : i.family ≠ .move) :
    emit v s addr i = emit w s addr i := by
  unfold emit
  cases hfamily : i.family
  case ret => exact absurd hfamily hret
  case move => exact absurd hfamily hmove
  all_goals rfl

theorem emit_eq_iff {bytes : List UInt8} (h : decode bytes addr = .ok i) (hv : v ∈ Variant.all)
    (hw : w ∈ Variant.all) (hcode : emit v s addr i = .ok code) (hcode' : emit w s addr i = .ok code') :
    code = code' ↔ ¬i.TellsApart v w := by
  by_cases hret : i.family = .ret
  · rw [ret_code_eq_iff hv hw hret hcode hcode']
    constructor
    · intro hsome hapart
      cases hapart with
      | ret _ link => exact link hsome
      | push family => cases hret.symm.trans family
      | pop family => cases hret.symm.trans family
    · intro hapart
      by_contra hlink
      exact hapart (.ret hret hlink)
  by_cases hmove : i.family = .move
  · obtain ⟨⟨dst, hdst⟩, src, hsrc⟩ := operands_of_move h hmove
    rw [move_code_eq_iff hmove hdst hsrc hcode hcode', Operand.isStackSlot_eq_iff, Operand.isStackSlot_eq_iff]
    constructor
    · rintro ⟨hpush, hpop⟩ hapart
      cases hapart with
      | ret family => exact hret family
      | push _ found stack =>
        cases hdst.symm.trans found
        exact stack (hpush _ _ rfl)
      | pop _ found stack =>
        cases hsrc.symm.trans found
        exact stack (hpop _ _ rfl)
    · intro hapart
      constructor
      · rintro base disp rfl
        by_contra hstack
        exact hapart (.push hmove hdst hstack)
      · rintro base disp rfl
        by_contra hstack
        exact hapart (.pop hmove hsrc hstack)
  · rw [emit_variant v w s addr hret hmove] at hcode
    have heq : code = code' := Except.ok.inj (hcode.symm.trans hcode')
    refine iff_of_true heq fun hapart => ?_
    rcases hapart.family_cases with family | family
    · exact hret family
    · exact hmove family

end Codes

section Queries

variable {bytes : List UInt8} {addr : Int} {i : Instruction}

/-- A store that is known up to one entry, and that entry, are known. -/
theorem Store.ChangedAt.unique {s t t' : Store} {entry : Option Override} (h : s.ChangedAt t addr entry)
    (h' : s.ChangedAt t' addr entry) : t = t' := by
  refine Store.ext_get? (fun other => ?_) (h.pointers.trans h'.pointers.symm)
  by_cases hother : other = addr
  · rw [hother, h.changed, h'.changed]
  · rw [h.kept other hother, h'.kept other hother]

theorem lift_code_eq_iff (h : decode bytes addr = .ok i) {l m : Lifter} (hl : l.variant ∈ Variant.all)
    (hm : m.variant ∈ Variant.all) {s : Store} {code code' : List Stmt}
    (hcode : (l.lift s i addr).answer = .ok ⟨i.length, code⟩)
    (hcode' : (m.lift s i addr).answer = .ok ⟨i.length, code'⟩) :
    code = code' ↔ ¬i.TellsApart l.variant m.variant := by
  by_cases hext : i.family = .ext
  · rw [(lift_extension l s hext).1] at hcode
    rw [(lift_extension m s hext).1, hcode] at hcode'
    cases hcode'
    refine iff_of_true rfl fun hapart => ?_
    rcases hapart.family_cases with family | family <;> cases hext.symm.trans family
  · obtain ⟨plain, hplain⟩ := emit_ok l.variant s addr (complete_of_decode h) hext
    obtain ⟨plain', hplain'⟩ := emit_ok m.variant s addr (complete_of_decode h) hext
    rw [(lift_plain l s hext hplain).1] at hcode
    rw [(lift_plain m s hext hplain').1] at hcode'
    cases hcode
    cases hcode'
    exact emit_eq_iff h hl hm hplain hplain'

namespace Lifter

/-- A host that asks for the lifted form finds the store as lifting leaves it. -/
theorem liftAt_store (h : decode bytes addr = .ok i) (l : Lifter) (s : Store) :
    (l.liftAt s (byteValues bytes) addr).store = (l.lift s i addr).store := by
  obtain ⟨⟨code, hcode⟩, -⟩ := lift_decoded h l s
  rw [liftAt, withDecoded_ok h]
  simp only [hcode]
  rfl

/-- **Variants differ only in returns and in moves that step a stack pointer.** At whatever address, and under
whatever overrides, a decoded instruction has the same flow and the same line for any two variants, and lifting it
gives the same length and leaves the same store. The lifted code is the same as well, just unless the instruction
tells the variants apart. -/
theorem variants_agree_unless_told_apart (h : decode bytes addr = .ok i) {l m : Lifter}
    (hl : l.variant ∈ Variant.all) (hm : m.variant ∈ Variant.all) (s : Store) :
    (l.info s (byteValues bytes) addr).answer = (m.info s (byteValues bytes) addr).answer ∧
    (l.text s (byteValues bytes) addr).answer = (m.text s (byteValues bytes) addr).answer ∧
    (l.liftAt s (byteValues bytes) addr).store = (m.liftAt s (byteValues bytes) addr).store ∧
    ∃ code code', (l.liftAt s (byteValues bytes) addr).answer = .ok (some ⟨i.length, code⟩) ∧
      (m.liftAt s (byteValues bytes) addr).answer = .ok (some ⟨i.length, code'⟩) ∧
      (code = code' ↔ ¬i.TellsApart l.variant m.variant) := by
  obtain ⟨⟨flow, hflow, hinfo⟩, ⟨tokens, htokens, htext⟩, ⟨code, hcode, hlift⟩⟩ := reports_of_decode h l s
  obtain ⟨⟨flow', hflow', hinfo'⟩, ⟨tokens', htokens', htext'⟩, ⟨code', hcode', hlift'⟩⟩ := reports_of_decode h m s
  refine ⟨?_, ?_, ?_, code, code', hlift, hlift', lift_code_eq_iff h hl hm hcode hcode'⟩
  · cases hflow.symm.trans hflow'
    rw [hinfo, hinfo']
  · cases htokens.symm.trans htokens'
    rw [htext, htext']
  · rw [liftAt_store h, liftAt_store h]
    exact (lift_decoded h l s).2.unique (lift_decoded h m s).2

end Lifter

/-- Moving a word to where `r0` points after a step down is a push where `r0` is the stack pointer. -/
theorem variants_agree_unless_told_apart_moveDown :
    ∃ i code code', decode [0x88, 0x40] 0x1000 = .ok i ∧ Variant.tc ∈ Variant.all ∧ Variant.tvx ∈ Variant.all ∧
      ((⟨.tc, false⟩ : Lifter).liftAt (.empty .zero) (byteValues [0x88, 0x40]) 0x1000).answer
        = .ok (some ⟨i.length, code⟩) ∧
      ((⟨.tvx, true⟩ : Lifter).liftAt (.empty .zero) (byteValues [0x88, 0x40]) 0x1000).answer
        = .ok (some ⟨i.length, code'⟩) ∧
      i.TellsApart .tc .tvx ∧ code ≠ code' := by
  obtain ⟨i, hdecode⟩ : ∃ i, decode [0x88, 0x40] 0x1000 = .ok i := ⟨_, rfl⟩
  have htc : Variant.tc ∈ Variant.all := by decide
  have htvx : Variant.tvx ∈ Variant.all := by decide
  have hapart : i.TellsApart .tc .tvx := by
    cases hdecode
    exact .push rfl rfl (by decide)
  obtain ⟨-, -, -, code, code', hlift, hlift', hsame⟩ :=
    Lifter.variants_agree_unless_told_apart hdecode (l := ⟨.tc, false⟩) (m := ⟨.tvx, true⟩) htc htvx (.empty .zero)
  exact ⟨i, code, code', hdecode, htc, htvx, hlift, hlift', hapart, fun heq => hsame.1 heq hapart⟩

end Queries

end Lift166
