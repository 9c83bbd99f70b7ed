import Lift166.Proofs.BitEffect

/-!
# Moves through the stack pointer

A word move that steps the stack pointer is lifted to a push or a pop, and one that steps another pointer to a step and
a transfer. Which register is the stack pointer is a matter of the variant, so the same instruction has both forms. On a
host that pushes and pops as usual the two forms come to the same, unless the register that is moved is the pointer
itself: a push takes the register as it was and a store takes it as it has been stepped, and a register that is loaded
through itself is stepped afterwards, while a popped one is not.
-/

namespace Lift166

open Il

/-! ## The stack of a host -/

/-- The register that points to the top of the stack, and where in memory its values point. -/
structure HostStack where
  pointer : Fin 16
  location : Fin 65536 → Nat

namespace HostStack

/-- The pointer moves down and the value is stored where it points then. -/
def push (k : HostStack) (m : Machine) (size x : Nat) : Machine :=
  let top := wordOf ((m.words k.pointer).val + (65536 - size))
  (m.setWord k.pointer top).store size (k.location top) x

/-- The value of an expression, and the machine when it has been computed: a pop moves the pointer up. -/
def value (k : HostStack) (m : Machine) : Expr → Option (Nat × Machine)
  | .pop size =>
    let top := m.words k.pointer
    some (m.load size (k.location top), m.setWord k.pointer (wordOf (top.val + size)))
  | e => (e.eval m).map fun x => (x, m)

/-- The machine after a statement. The value that is pushed or assigned is computed first. -/
def exec (k : HostStack) (rule : FlagRule) (m : Machine) (stmt : Stmt) : Option Machine :=
  match stmt with
  | .push size e => (k.value m e).map fun r => k.push r.2 size r.1
  | .setReg size _ var e =>
    (k.value m e).map fun r => (r.2.assign size var r.1).updateFlags stmt.updated (rule stmt m)
  | stmt => stmt.exec rule m

/-- Runs statements one after the other. -/
def run (k : HostStack) (rule : FlagRule) : List Stmt → Machine → Option Machine
  | [], m => some m
  | stmt :: rest, m => (k.exec rule m stmt).bind (k.run rule rest)

/-- The instruction at an address is lifted, and its code runs to its end. -/
def Runs (k : HostStack) (l : Lifter) (s : Store) (addr : Int) (i : Instruction) (rule : FlagRule) (m final : Machine) :
    Prop :=
  ∃ code, (l.lift s i addr).answer = .ok ⟨i.length, code⟩ ∧ k.run rule code m = some final

variable (k : HostStack) (rule : FlagRule) {m : Machine} {value : Expr} {x : Nat}

theorem run_of_exec {rule : FlagRule} {stmt : Stmt} {after : Machine} (h : k.exec rule m stmt = some after)
    (rest : List Stmt) : k.run rule (stmt :: rest) m = k.run rule rest after := by
  rw [run, h, Option.bind_some]

/-- An expression that has a value by itself pops nothing. -/
theorem value_of_eval (h : value.eval m = some x) : k.value m value = some (x, m) := by
  cases value
  case pop => cases h
  all_goals exact congrArg (Option.map fun x => (x, m)) h

theorem exec_setWord (n : Fin 16) (flags : Option FlagPolicy) (hvalue : value.eval m = some x) (hx : x < 65536) :
    ∃ after, k.exec rule m (.setReg 2 flags (.machine (.word n)) value) = some after ∧ after.others = m.others ∧
      after.words = Function.update m.words n (wordOf x) ∧ after.memory = m.memory := by
  have hlow : lowBits (8 * 2) x = x := lowBits_of_lt hx
  rw [exec, k.value_of_eval hvalue, Option.map_some, Machine.assign, hlow]
  exact ⟨_, rfl, rfl, rfl, rfl⟩

theorem exec_storeWord {address : Expr} {a : Nat} (flags : Option FlagPolicy) (haddress : address.eval m = some a)
    (hvalue : value.eval m = some x) :
    ∃ after, k.exec rule m (.store 2 flags address value) = some after ∧ after.others = m.others ∧
      after.words = m.words ∧ after.memory = (m.store 2 a x).memory := by
  have hexec : k.exec rule m (.store 2 flags address value) = (Stmt.store 2 flags address value).exec rule m := rfl
  rw [hexec, Stmt.exec, Stmt.effect, haddress, Option.bind_some, hvalue, Option.map_some, Option.map_some]
  exact ⟨_, rfl, rfl, rfl, rfl⟩

/-- The word below the top is pushed to, and becomes the top. -/
theorem exec_push (hvalue : value.eval m = some x) :
    ∃ after, k.exec rule m (.push 2 value) = some after ∧ after.others = m.others ∧
      after.words = Function.update m.words k.pointer (wordOf ((m.words k.pointer).val + 65534)) ∧
      after.memory = (m.store 2 (k.location (wordOf ((m.words k.pointer).val + 65534))) x).memory := by
  rw [exec, k.value_of_eval hvalue, Option.map_some]
  exact ⟨_, rfl, rfl, rfl, rfl⟩

/-- The popped word is assigned when the pointer has moved. -/
theorem exec_popWord (n : Fin 16) (flags : Option FlagPolicy) :
    ∃ after, k.exec rule m (.setReg 2 flags (.machine (.word n)) (.pop 2)) = some after ∧ after.others = m.others ∧
      after.words = Function.update (Function.update m.words k.pointer (wordOf ((m.words k.pointer).val + 2))) n
        (wordOf (m.load 2 (k.location (m.words k.pointer)))) ∧ after.memory = m.memory := by
  have hlow : lowBits (8 * 2) (m.load 2 (k.location (m.words k.pointer))) = m.load 2 (k.location (m.words k.pointer)) :=
    lowBits_of_lt (m.load_lt 2 _)
  rw [exec, HostStack.value, Option.map_some, Machine.assign, hlow]
  exact ⟨_, rfl, rfl, rfl, rfl⟩

end HostStack

/-! ## Steps of a pointer -/

theorem eval_stepDown (b : Fin 16) (m : Machine) :
    (Expr.quiet .sub 2 (.register 2 (.word b)) (.const 2 (2 : Nat))).eval m =
      some (((m.words b).val + 65534) % 65536) := by
  have hlow : lowBits (8 * 2) ((m.words b).val - (2 : Nat)) = ((m.words b).val + 65534) % 65536 := by
    have hbits : ((1 <<< (8 * 2) : Nat) : Int) = 65536 := rfl
    rw [lowBits, hbits]
    omega
  rw [Expr.eval_quiet (eval_word b m) (Expr.eval_const (by decide)) rfl, hlow]

theorem eval_stepUp (b : Fin 16) (m : Machine) :
    (Expr.quiet .add 2 (.register 2 (.word b)) (.const 2 (2 : Nat))).eval m = some (((m.words b).val + 2) % 65536) := by
  rw [Expr.eval_quiet (eval_word b m) (Expr.eval_const (by decide)) rfl]
  exact congrArg some (lowBits_natCast (8 * 2) ((m.words b).val + 2))

theorem wordOf_mod (x : Nat) : wordOf (x % 65536) = wordOf x :=
  Fin.ext (Nat.mod_mod x 65536)

theorem eval_pointedTo (s : Store) (addr : Int) (b : Fin 16) (m : Machine) :
    (indirectAddress s addr (.word b) 0).eval m = some ((s.regimeOn m addr).physical (m.words b)) :=
  eval_indirectAddress_on s addr (eval_word b m)

theorem isStackSlot_word {v : Variant} {b : Fin 16} (mode : IndirectMode) (disp : Int) :
    (Operand.indirect (.word b) mode 2 disp).isStackSlot v mode = true ↔ v.stackPointer = .word b := by
  simp only [Operand.isStackSlot, beq_self_eq_true, Bool.true_and, beq_iff_eq]
  exact eq_comm

/-! ## Decoded moves -/

theorem opcodeTable_wordMove : ∀ entry ∈ opcodeTable, entry.mnemonic = "mov" → entry.family = .move := by
  decide +kernel

section Decoding

variable {bytes : List UInt8} {addr : Int} {i : Instruction} {b n : Fin 16} {disp : Int} {l : Lifter}

theorem move_of_mnemonic (h : decode bytes addr = .ok i) (hname : i.mnemonic = "mov") : i.family = .move := by
  obtain ⟨entry, hmem, hrow, hfamily, -⟩ := row_of_mnemonic h (by rw [hname]; decide)
  rw [hfamily]
  exact opcodeTable_wordMove entry hmem (hrow.symm.trans hname)

/-- Moving a register to `[-Rb]` where `Rb` is the stack pointer. -/
theorem runs_push (h : decode bytes addr = .ok i) (hname : i.mnemonic = "mov")
    (hdst : i.operand .dst = .ok (.indirect (.word b) .preDec 2 disp)) (hsrc : i.operand .src = .ok (.reg (.word n) 2))
    (hstack : l.variant.stackPointer = .word b) (s : Store) {k : HostStack} (hk : k.pointer = b) (rule : FlagRule)
    (m : Machine) :
    ∃ pushed, k.Runs l s addr i rule m pushed ∧ pushed.others = m.others ∧
      pushed.words = Function.update m.words b (wordOf ((m.words b).val + 65534)) ∧
      pushed.memory = (m.store 2 (k.location (wordOf ((m.words b).val + 65534))) (m.words n)).memory := by
  subst hk
  obtain ⟨code, hcode, hemits⟩ := lift_emits h l s
  rw [move_of_mnemonic h hname] at hemits
  cases hemits with
  | pushMove dstOperand srcOperand moved stacked =>
    cases hsrc.symm.trans srcOperand
    cases moved
    obtain ⟨pushed, hexec, hafter⟩ := k.exec_push rule (eval_word n m)
    exact ⟨pushed, ⟨_, hcode, (k.run_of_exec hexec []).trans rfl⟩, hafter⟩
  | move dstOperand srcOperand moved unstacked written =>
    cases hdst.symm.trans dstOperand
    rw [(isStackSlot_word .preDec disp).2 hstack] at unstacked
    cases unstacked

/-- Moving a register to `[-Rb]` where another register is the stack pointer: the register is stored as it is after the
step. -/
theorem runs_preDec (h : decode bytes addr = .ok i) (hname : i.mnemonic = "mov")
    (hdst : i.operand .dst = .ok (.indirect (.word b) .preDec 2 disp)) (hsrc : i.operand .src = .ok (.reg (.word n) 2))
    (hstack : l.variant.stackPointer ≠ .word b) (s : Store) (k : HostStack) (rule : FlagRule) (m : Machine) :
    ∃ stored, k.Runs l s addr i rule m stored ∧ stored.others = m.others ∧
      stored.words = Function.update m.words b (wordOf ((m.words b).val + 65534)) ∧
      stored.memory = (m.store 2 ((s.regimeOn m addr).physical (wordOf ((m.words b).val + 65534)))
        (stored.words n)).memory := by
  obtain ⟨code, hcode, hemits⟩ := lift_emits h l s
  rw [move_of_mnemonic h hname] at hemits
  cases hemits with
  | pushMove dstOperand srcOperand moved stacked =>
    cases hdst.symm.trans dstOperand
    exact absurd ((isStackSlot_word .preDec disp).1 stacked) hstack
  | move dstOperand srcOperand moved unstacked written =>
    cases hdst.symm.trans dstOperand
    cases hsrc.symm.trans srcOperand
    cases moved
    cases written
    obtain ⟨stepped, hstep, hothers, hwords, hmemory⟩ := k.exec_setWord rule b none (eval_stepDown b m) (mod_word_lt _)
    rw [wordOf_mod] at hwords
    obtain ⟨stored, hstore, hothers', hwords', hmemory'⟩ :=
      k.exec_storeWord rule i.flags (eval_pointedTo s addr b stepped) (eval_word n stepped)
    -- the pointers of the machine are in memory, which the step leaves alone
    have hregime : s.regimeOn stepped addr = s.regimeOn m addr := by
      simp only [Store.regimeOn, Machine.pointers, Machine.load, hmemory]
    have hbase : stepped.words b = wordOf ((m.words b).val + 65534) := by rw [hwords, Function.update_self]
    have hbytes : ∀ a x, (stepped.store 2 a x).memory = (m.store 2 a x).memory := by
      intro a x
      simp only [Machine.store, hmemory]
    refine ⟨stored, ⟨_, hcode, ?_⟩, hothers'.trans hothers, hwords'.trans hwords, ?_⟩
    · exact (k.run_of_exec hstep _).trans (k.run_of_exec hstore _)
    · rw [hmemory', hbytes, hregime, hbase, hwords']

/-- Moving a register from `[Rb+]` where `Rb` is the stack pointer. -/
theorem runs_pop (h : decode bytes addr = .ok i) (hname : i.mnemonic = "mov")
    (hdst : i.operand .dst = .ok (.reg (.word n) 2)) (hsrc : i.operand .src = .ok (.indirect (.word b) .postInc 2 disp))
    (hstack : l.variant.stackPointer = .word b) (s : Store) {k : HostStack} (hk : k.pointer = b) (rule : FlagRule)
    (m : Machine) :
    ∃ popped, k.Runs l s addr i rule m popped ∧ popped.others = m.others ∧
      popped.words = Function.update (Function.update m.words b (wordOf ((m.words b).val + 2))) n
        (wordOf (m.load 2 (k.location (m.words b)))) ∧ popped.memory = m.memory := by
  subst hk
  obtain ⟨code, hcode, hemits⟩ := lift_emits h l s
  rw [move_of_mnemonic h hname] at hemits
  have hslot := (isStackSlot_word .postInc disp).2 hstack
  cases hemits with
  | pushMove dstOperand srcOperand moved stacked =>
    cases hdst.symm.trans dstOperand
    cases stacked
  | move dstOperand srcOperand moved unstacked written =>
    cases hdst.symm.trans dstOperand
    cases hsrc.symm.trans srcOperand
    rw [movedValue, if_pos hslot] at moved
    cases moved
    cases written
    obtain ⟨popped, hexec, hafter⟩ := k.exec_popWord rule n i.flags (m := m)
    rw [if_pos hslot] at hcode
    exact ⟨popped, ⟨_, hcode, k.run_of_exec hexec []⟩, hafter⟩

/-- Moving a register from `[Rb+]` where another register is the stack pointer: the step comes after the load. -/
theorem runs_postInc (h : decode bytes addr = .ok i) (hname : i.mnemonic = "mov")
    (hdst : i.operand .dst = .ok (.reg (.word n) 2)) (hsrc : i.operand .src = .ok (.indirect (.word b) .postInc 2 disp))
    (hstack : l.variant.stackPointer ≠ .word b) (s : Store) (k : HostStack) (rule : FlagRule) (m : Machine) :
    ∃ loaded between, k.Runs l s addr i rule m loaded ∧ loaded.others = m.others ∧
      between = Function.update m.words n (wordOf (m.load 2 ((s.regimeOn m addr).physical (m.words b)))) ∧
      loaded.words = Function.update between b (wordOf ((between b).val + 2)) ∧ loaded.memory = m.memory := by
  obtain ⟨code, hcode, hemits⟩ := lift_emits h l s
  rw [move_of_mnemonic h hname] at hemits
  have hslot : (Operand.indirect (.word b) .postInc 2 disp).isStackSlot l.variant .postInc = false :=
    Bool.eq_false_iff.2 fun hslot => hstack ((isStackSlot_word .postInc disp).1 hslot)
  cases hemits with
  | pushMove dstOperand srcOperand moved stacked =>
    cases hdst.symm.trans dstOperand
    cases stacked
  | move dstOperand srcOperand moved unstacked written =>
    cases hdst.symm.trans dstOperand
    cases hsrc.symm.trans srcOperand
    rw [movedValue, hslot] at moved
    cases moved
    cases written
    rw [hslot] at hcode
    have hvalue : (Expr.load 2 (indirectAddress s addr (.word b) 0)).eval m =
        some (m.load 2 ((s.regimeOn m addr).physical (m.words b))) := by
      rw [Expr.eval, eval_pointedTo]
      rfl
    obtain ⟨assigned, hassign, hothers, hwords, hmemory⟩ := k.exec_setWord rule n i.flags hvalue (m.load_lt 2 _)
    obtain ⟨loaded, hstep, hothers', hwords', hmemory'⟩ :=
      k.exec_setWord rule b none (eval_stepUp b assigned) (mod_word_lt _)
    rw [wordOf_mod] at hwords'
    refine ⟨loaded, assigned.words, ⟨_, hcode, ?_⟩, hothers'.trans hothers, hwords, hwords', hmemory'.trans hmemory⟩
    exact (k.run_of_exec hassign _).trans (k.run_of_exec hstep _)

theorem wordOf_add_ne (w : Fin 65536) {x : Nat} (hx : 0 < x) (hlt : x < 65536) : wordOf (w.val + x) ≠ w := by
  intro heq
  have hval : (w.val + x) % 65536 = w.val := congrArg Fin.val heq
  omega

/-- **A move through the stack pointer and one through another pointer.** The same instruction is run as it is lifted
where `Rb` is the stack pointer and where it is not. A register moved to `[-Rb]` leaves the same registers, and the word
that goes to memory is the same just when the register is not `Rb`. A register moved from `[Rb+]` changes no memory, and
if the word there is the same, the registers are left the same just when the register is not `Rb`. -/
theorem stack_moves_agree_iff (h : decode bytes addr = .ok i) (hname : i.mnemonic = "mov") {v w : Lifter}
    (hv : v.variant.stackPointer = .word b) (hw : w.variant.stackPointer ≠ .word b) (s : Store) {k : HostStack}
    (hk : k.pointer = b) (k' : HostStack) (rule rule' : FlagRule) (m : Machine) :
    (∀ n disp, i.operand .dst = .ok (.indirect (.word b) .preDec 2 disp) → i.operand .src = .ok (.reg (.word n) 2) →
      ∃ pushed stored, k.Runs v s addr i rule m pushed ∧ k'.Runs w s addr i rule' m stored ∧
        pushed.others = stored.others ∧ pushed.words = stored.words ∧
        stored.words = Function.update m.words b (wordOf ((m.words b).val + 65534)) ∧
        pushed.memory = (m.store 2 (k.location (pushed.words b)) (m.words n)).memory ∧
        stored.memory = (m.store 2 ((s.regimeOn m addr).physical (stored.words b)) (stored.words n)).memory ∧
        (m.words n = stored.words n ↔ n ≠ b)) ∧
    (∀ n disp, i.operand .dst = .ok (.reg (.word n) 2) → i.operand .src = .ok (.indirect (.word b) .postInc 2 disp) →
      m.load 2 (k.location (m.words b)) = m.load 2 ((s.regimeOn m addr).physical (m.words b)) →
      ∃ popped loaded, k.Runs v s addr i rule m popped ∧ k'.Runs w s addr i rule' m loaded ∧
        popped.others = loaded.others ∧ popped.memory = m.memory ∧ loaded.memory = m.memory ∧
        popped.words = Function.update (Function.update m.words b (wordOf ((m.words b).val + 2))) n
          (wordOf (m.load 2 (k.location (m.words b)))) ∧
        (popped.words = loaded.words ↔ n ≠ b)) := by
  constructor
  · intro n disp hdst hsrc
    obtain ⟨pushed, hpush, hothers, hwords, hmemory⟩ := runs_push h hname hdst hsrc hv s hk rule m
    obtain ⟨stored, hstore, hothers', hwords', hmemory'⟩ := runs_preDec h hname hdst hsrc hw s k' rule' m
    have hbase : wordOf ((m.words b).val + 65534) = stored.words b := by rw [hwords', Function.update_self]
    refine ⟨pushed, stored, hpush, hstore, hothers.trans hothers'.symm, hwords.trans hwords'.symm, hwords', ?_, ?_, ?_⟩
    · rw [hmemory, hbase, hwords, hwords']
    · rw [hmemory', hbase]
    · by_cases hn : n = b
      · subst hn
        rw [← hbase]
        exact ⟨fun heq => absurd heq.symm (wordOf_add_ne _ (by decide) (by decide)), fun hne => absurd rfl hne⟩
      · rw [hwords', Function.update_of_ne hn]
        exact ⟨fun _ => hn, fun _ => rfl⟩
  · intro n disp hdst hsrc hsame
    obtain ⟨popped, hpop, hothers, hwords, hmemory⟩ := runs_pop h hname hdst hsrc hv s hk rule m
    obtain ⟨loaded, between, hload, hothers', hbetween, hwords', hmemory'⟩ :=
      runs_postInc h hname hdst hsrc hw s k' rule' m
    refine ⟨popped, loaded, hpop, hload, hothers.trans hothers'.symm, hmemory, hmemory', hwords, ?_⟩
    rw [hwords, hwords', hbetween, ← hsame]
    by_cases hn : n = b
    · subst hn
      refine ⟨fun heq => ?_, fun hne => absurd rfl hne⟩
      -- the word is there after the pop, and two more after the load
      have hat := congrFun heq n
      rw [Function.update_self, Function.update_self, Function.update_self] at hat
      exact absurd hat.symm (wordOf_add_ne _ (by decide) (by decide))
    · refine ⟨fun _ => hn, fun _ => ?_⟩
      rw [Function.update_of_ne (Ne.symm hn), Function.update_comm hn]

/-- The stack pointer moved through itself is pushed as it was, and stored as it has been stepped where another register
is the stack pointer. -/
theorem stack_moves_agree_iff_self :
    ∃ (k k' : HostStack) (i : Instruction) (pushed stored : Machine) (a a' : Nat), k.pointer.val = 0 ∧
      decode [0x88, 0x00] 0x1000 = .ok i ∧ i.mnemonic = "mov" ∧
      k.Runs ⟨.tc, false⟩ pageFiveStore 0x1000 i (fun _ _ _ => true) pageFive pushed ∧
      k'.Runs ⟨.tvx, false⟩ pageFiveStore 0x1000 i (fun _ _ _ => true) pageFive stored ∧
      pushed.memory = (pageFive.store 2 a 0x4321).memory ∧ stored.memory = (pageFive.store 2 a' 0x431F).memory := by
  obtain ⟨b, hb⟩ : ∃ b : Fin 16, b.val = 0 := ⟨⟨0, by decide⟩, rfl⟩
  obtain ⟨i, hi, hname, hdst, hsrc⟩ : ∃ i, decode [0x88, 0x00] 0x1000 = .ok i ∧ i.mnemonic = "mov" ∧
      i.operand .dst = .ok (.indirect (.word b) .preDec 2 0) ∧ i.operand .src = .ok (.reg (.word b) 2) := by
    obtain rfl : b = ⟨0, by decide⟩ := Fin.ext hb
    exact ⟨_, rfl, rfl, rfl, rfl⟩
  have hv : Variant.tc.stackPointer = .word b := congrArg Register.word (Fin.ext hb.symm)
  have hw : Variant.tvx.stackPointer ≠ .word b := by
    intro heq
    have hval := congrArg Fin.val (Register.word.inj heq)
    exact absurd (hval.trans hb) (by decide)
  obtain ⟨pushed, stored, hpush, hstore, -, -, hwords, hmemory, hmemory', -⟩ :=
    (stack_moves_agree_iff hi hname (v := ⟨.tc, false⟩) (w := ⟨.tvx, false⟩) hv hw pageFiveStore
      (k := ⟨b, fun p => p.val⟩) rfl ⟨b, fun p => p.val⟩ (fun _ _ _ => true) (fun _ _ _ => true) pageFive).1
        b 0 hdst hsrc
  have hstepped : (stored.words b).val = 0x431F := by
    have hsum : (0x4321 + 65534) % 65536 = 0x431F := by decide
    rw [hwords, Function.update_self]
    exact hsum
  rw [hstepped] at hmemory'
  exact ⟨_, _, i, pushed, stored, _, _, hb, hi, hname, hpush, hstore, hmemory, hmemory'⟩

end Decoding

end Lift166
