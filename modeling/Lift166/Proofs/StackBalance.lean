import Lift166.Proofs.Effects

/-!
# Stack balance

How far lifted code moves the stack, against what the mnemonic of the instruction says. The two agree except in one
case. A pop and a return that pops a register hand the popped value to a write; where the short address of the register
stands for a word that the hardware fixes, the write is dropped and the pop in it is lost.
-/

namespace Lift166

open Il

/-! ## What an instruction is to do -/

/-- What an instruction is to do to the stack. -/
inductive StackUse
  /-- It puts so many words on the stack, or takes them off if the number is negative. -/
  | always (words : Int)
  /-- It is a word move, which uses the stack if an operand steps the stack pointer the way the stack grows. -/
  | byOperands
deriving DecidableEq

/-- What the instructions of a mnemonic are to do to the stack. -/
def StackUse.ofMnemonic : String → StackUse
  | "push" | "scxt" => .always 1
  | "pop" | "ret" => .always (-1)
  | "rets" | "retp" | "reti" => .always (-2)
  | "mov" => .byOperands
  | _ => .always 0

/-- The words that an instruction with a given use of the stack puts on it. -/
def StackUse.words (v : Variant) (i : Instruction) : StackUse → Int
  | always words => words
  | byOperands => (if i.usesStack v .dst .preDec then 1 else 0) - (if i.usesStack v .src .postInc then 1 else 0)

namespace Instruction

/-- The words that an instruction is to put on the stack, less those it is to take off. -/
def stackEffect (v : Variant) (i : Instruction) : Int :=
  (StackUse.ofMnemonic i.mnemonic).words v i

/-- Whether an instruction pops into a register whose word the hardware fixes. -/
def dropsPop (s : Store) (addr : Int) (i : Instruction) : Bool :=
  ["pop", "retp"].contains i.mnemonic && i.drops s addr .reg

end Instruction

/-- The words that code puts on the stack, less those it takes off. -/
def Il.stackChange (code : List Stmt) : Int :=
  (tallyOf code).pushes - (tallyOf code).pops

/-! ## What the families do -/

/-- What the instructions of a family do to the stack. -/
def Family.stackUse (family : Family) (operation : Option Operation) : StackUse :=
  match family with
  | .stack => if operation = some .push then .always 1 else .always (-1)
  | .scxt => .always 1
  | .ret => if operation = some (.ret .ret) then .always (-1) else .always (-2)
  | .move => .byOperands
  | _ => .always 0

/-- Whether the instructions of a family pop into a register. -/
def Family.popsRegister (family : Family) (operation : Option Operation) : Bool :=
  match family with
  | .stack => operation != some .push
  | .ret => operation == some (.ret .retp)
  | _ => false

/-- The stack in a family's tally. A value that is popped to be moved is not dropped. -/
theorem Instruction.tally_stack {v : Variant} {s : Store} {addr : Int} {i : Instruction} (family : Family)
    (hlink : v.linkRegister = none) (hmove : i.usesStack v .src .postInc = true → i.drops s addr .dst = false) :
    ((i.tally v s addr family).pushes : Int) - (i.tally v s addr family).pops =
      (family.stackUse i.operation).words v i +
        if family.popsRegister i.operation && i.drops s addr .reg then 1 else 0 := by
  cases family
  case alu =>
    simp only [tally]
    split <;> rfl
  case bitLogic =>
    simp only [tally]
    split
    · rfl
    · split <;> rfl
  case ret =>
    simp only [tally, hlink, Family.stackUse, Family.popsRegister]
    by_cases hret : i.operation = some (.ret .ret)
    · simp [hret, Tally.pop, StackUse.words]
    · by_cases hlost : i.operation = some (.ret .retp) ∧ i.drops s addr .reg
      · simp [hlost, Tally.pop, StackUse.words]
      · simp [hret, if_neg hlost, Tally.pop, StackUse.words]
  case stack =>
    simp only [tally, Family.stackUse, Family.popsRegister]
    by_cases hpush : i.operation = some .push
    · simp [hpush, Tally.push, StackUse.words]
    · cases hlost : i.drops s addr .reg
      · simp [hpush, Tally.pop, Tally.policy, StackUse.words]
      · simp [hpush, StackUse.words]
  case move =>
    simp only [tally, Family.stackUse, Family.popsRegister, StackUse.words]
    cases hdst : i.usesStack v .dst .preDec
    · cases hsrc : i.usesStack v .src .postInc
      · cases i.drops s addr .dst <;> simp [Tally.policy]
      · simp [hmove hsrc, Tally.policy, Tally.pop]
    · cases i.usesStack v .src .postInc <;> simp [Tally.push, Tally.pop]
  case moveExt =>
    simp only [tally]
    split <;> rfl
  case system =>
    simp only [tally]
    split <;> rfl
  case ext =>
    simp only [tally]
    split <;> rfl
  all_goals rfl

/-! ## Rows -/

/-- The mnemonics of the rows agree with their families, but for the byte moves, whose family is that of the word moves.
Rows that extend other instructions have a family of their own. -/
theorem opcodeTable_stackUse : ∀ entry ∈ opcodeTable,
    (StackUse.ofMnemonic entry.mnemonic = entry.family.stackUse entry.operation ∨
      StackUse.ofMnemonic entry.mnemonic = .always 0 ∧ entry.family = .move ∧ entry.width = 1) ∧
    ["pop", "retp"].contains entry.mnemonic = entry.family.popsRegister entry.operation ∧
    (entry.layout ∈ [.extensionShort, .extensionImmediate, .extensionRegister] → entry.family = .ext) := by
  decide +kernel

section Layouts

variable {entry : OpcodeEntry} {layout : Layout} {pc : Int} {i : Instruction} {dst src : Operand}

/-- An instruction has the mnemonic of its row, unless it extends others: then the kind of extension names it. -/
theorem Layout.Yields.mnemonic_cases (h : layout.Yields entry pc i) :
    i.mnemonic = entry.mnemonic ∨ ∃ ext : Extension, ext.Encoded layout ∧ i.mnemonic = ext.kind.name := by
  cases h
  case extension ext encoded => exact .inr ⟨ext, encoded, rfl⟩
  all_goals exact .inl rfl

theorem Extension.Encoded.layout_mem {ext : Extension} (h : ext.Encoded layout) :
    layout ∈ [.extensionShort, .extensionImmediate, .extensionRegister] := by
  cases h <;> decide

theorem Layout.Yields.mnemonic_eq (hmem : entry ∈ opcodeTable) (h : entry.layout.Yields entry pc i)
    (hfamily : entry.family ≠ .ext) : i.mnemonic = entry.mnemonic := by
  rcases h.mnemonic_cases with hname | ⟨ext, hencoded, -⟩
  · exact hname
  · exact absurd ((opcodeTable_stackUse entry hmem).2.2 hencoded.layout_mem) hfamily

theorem Extension.Encoded.kind_mem {ext : Extension} (h : ext.Encoded layout) :
    ext.kind ∈ [.atomic, .extr, .exts, .extp, .extsr, .extpr] := by
  cases h
  case segment sort pos le => rcases sort with rfl | rfl <;> simp
  case page sort pos le => rcases sort with rfl | rfl <;> simp
  case register selector _ _ _ _ =>
    have hselected : ∀ n, extensionOfSelector n ∈ [.atomic, .extr, .exts, .extp, .extsr, .extpr] := by decide
    exact hselected selector
  all_goals simp

/-- No kind of extension has a mnemonic that uses the stack. -/
theorem stackUse_extension : ∀ kind ∈ [ExtensionKind.atomic, .extr, .exts, .extp, .extsr, .extpr],
    StackUse.ofMnemonic kind.name = .always 0 ∧ ["pop", "retp"].contains kind.name = false := by
  decide

/-- A destination and a source come from a layout with two operands. -/
theorem Layout.Yields.pair_of_operands (h : layout.Yields entry pc i) (hdst : i.operand .dst = .ok dst)
    (hsrc : i.operand .src = .ok src) : layout.Pair entry dst src := by
  cases h
  case pair operands =>
    cases hdst
    cases hsrc
    exact operands
  case extension encoded => cases encoded <;> cases hdst
  case dstReg => cases hsrc
  all_goals cases hdst

/-- The operands of a byte instruction are no stack slots. -/
theorem Layout.Pair.not_stackSlot (h : layout.Pair entry dst src) (hwidth : entry.width = 1) (v : Variant)
    (mode : IndirectMode) : dst.isStackSlot v mode = false ∧ src.isStackSlot v mode = false := by
  cases h <;> simp [Operand.isStackSlot, Operand.ofNibble, Operand.ofPointer, Operand.ofSmall, Operand.ofDisplaced, hwidth]

/-- What comes from a pointer does not go to a short address or a bit. -/
theorem Layout.Pair.not_dropped (h : layout.Pair entry dst src) {v : Variant} {mode : IndirectMode} (s : Store)
    (addr : Int) (hsrc : src.isStackSlot v mode = true) : dst.isDropped s addr = false := by
  cases h
  case shortByte | shortImm | shortWord | shortMem | shortMemByte | bitPair => cases hsrc
  all_goals rfl

end Layouts

section Decoded

variable {bytes : List UInt8} {addr : Int} {i : Instruction}

theorem drops_of_usesStack (h : decode bytes addr = .ok i) {v : Variant} {mode : IndirectMode} (s : Store)
    (hsrc : i.usesStack v .src mode = true) : i.drops s addr .dst = false := by
  obtain ⟨entry, -, hyields⟩ := decode_yields h
  cases hsource : i.operand .src with
  | error e =>
    rw [Instruction.usesStack, hsource] at hsrc
    cases hsrc
  | ok src =>
    rw [i.usesStack_eq v mode hsource] at hsrc
    unfold Instruction.drops
    split
    · next dst hdst => exact (hyields.pair_of_operands hdst hsource).not_dropped s addr hsrc
    · rfl

theorem operands_of_move (h : decode bytes addr = .ok i) (hmove : i.family = .move) :
    (∃ dst, i.operand .dst = .ok dst) ∧ ∃ src, i.operand .src = .ok src := by
  have hholds := (complete_of_decode h).holds
  rw [hmove] at hholds
  obtain ⟨dst, hdst, -⟩ := hholds _ List.mem_cons_self
  obtain ⟨src, hsrc, -⟩ := hholds _ (List.mem_cons_of_mem _ List.mem_cons_self)
  exact ⟨⟨dst, hdst⟩, src, hsrc⟩

/-- What the mnemonic of a decoded instruction says about the stack is what its family does. -/
theorem stackEffect_of_decode (h : decode bytes addr = .ok i) (v : Variant) :
    i.stackEffect v = (i.family.stackUse i.operation).words v i := by
  obtain ⟨entry, hmem, hyields⟩ := decode_yields h
  obtain ⟨hfamily, -, hoperation⟩ := hyields.header
  obtain ⟨huse, -, hext⟩ := opcodeTable_stackUse entry hmem
  unfold Instruction.stackEffect
  rw [hfamily, hoperation]
  rcases hyields.mnemonic_cases with hname | ⟨ext, hencoded, hname⟩
  · rw [hname]
    rcases huse with huse | ⟨huse, hmove, hwidth⟩
    · rw [huse]
    · -- a byte move: its mnemonic says nothing about the stack, and its operands do not use it
      obtain ⟨⟨dst, hdst⟩, src, hsrc⟩ := operands_of_move h (hfamily.trans hmove)
      have hslots := (hyields.pair_of_operands hdst hsrc).not_stackSlot hwidth v
      simp [huse, hmove, Family.stackUse, StackUse.words, i.usesStack_eq v _ hdst, i.usesStack_eq v _ hsrc, hslots]
  · rw [hname, (stackUse_extension _ hencoded.kind_mem).1, hext hencoded.layout_mem]
    rfl

theorem popsRegister_of_decode (h : decode bytes addr = .ok i) :
    ["pop", "retp"].contains i.mnemonic = i.family.popsRegister i.operation := by
  obtain ⟨entry, hmem, hyields⟩ := decode_yields h
  obtain ⟨hfamily, -, hoperation⟩ := hyields.header
  obtain ⟨-, hpops, hext⟩ := opcodeTable_stackUse entry hmem
  rw [hfamily, hoperation]
  rcases hyields.mnemonic_cases with hname | ⟨ext, hencoded, hname⟩
  · rw [hname, hpops]
  · rw [hname, (stackUse_extension _ hencoded.kind_mem).2, hext hencoded.layout_mem]
    rfl

/-- Lifted code moves the stack as far as the mnemonic says, unless it pops into a fixed word: then one pop is lost. -/
theorem lift_balances_stack_iff (h : decode bytes addr = .ok i) (l : Lifter) (hlink : l.variant.linkRegister = none)
    (s : Store) :
    ∃ code, (l.lift s i addr).answer = .ok ⟨i.length, code⟩ ∧
      (stackChange code = i.stackEffect l.variant ↔ i.dropsPop s addr = false) ∧
      (i.dropsPop s addr = true → stackChange code = i.stackEffect l.variant + 1) := by
  obtain ⟨code, hanswer, htally⟩ := lift_tally h l s
  have hchange : stackChange code = i.stackEffect l.variant + if i.dropsPop s addr then 1 else 0 := by
    rw [stackChange, htally, Instruction.tally_stack i.family hlink (drops_of_usesStack h s),
      stackEffect_of_decode h l.variant, Instruction.dropsPop, popsRegister_of_decode h]
  refine ⟨code, hanswer, ?_, ?_⟩
  · rw [hchange]
    cases i.dropsPop s addr
    · simp
    · simp only [if_true, Bool.true_eq_false, iff_false]
      omega
  · intro hdrops
    rw [hchange, if_pos hdrops]

/-- Popping into the register that is always zero is to take a word off the stack, and leaves the stack alone. -/
theorem lift_balances_stack_iff_popZeros :
    ∃ i code, decode [0xFC, 0x8E] 0x1000 = .ok i ∧ Variant.tc.linkRegister = none ∧
      ((⟨.tc, false⟩ : Lifter).lift (.empty .zero) i 0x1000).answer = .ok ⟨i.length, code⟩ ∧
      i.dropsPop (.empty .zero) 0x1000 = true ∧ i.stackEffect .tc = -1 ∧ stackChange code = 0 := by
  obtain ⟨i, hdecode⟩ : ∃ i, decode [0xFC, 0x8E] 0x1000 = .ok i := ⟨_, rfl⟩
  obtain ⟨code, hanswer, -, hlost⟩ := lift_balances_stack_iff hdecode ⟨.tc, false⟩ rfl (.empty .zero)
  cases hdecode
  exact ⟨_, code, rfl, rfl, hanswer, rfl, rfl, hlost rfl⟩

end Decoded

end Lift166
