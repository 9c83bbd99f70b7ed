import Lift166.Proofs.FlagEffects
import Lift166.Proofs.Naming

/-!
# Operands of decoded instructions

An operand put together by hand may have any width, and a register of any name. One that was decoded has only what
its encoding can hold: a general purpose register comes with its own size, an immediate fits the width it is given,
and a branch target lies in the address space. `regular_of_decode` collects what lifted code rests on.
-/

namespace Lift166

/-- The value can be written as a literal of so many bytes. -/
def LiteralFits (size : Nat) (value : Int) : Prop :=
  0 ≤ value ∧ value < (1 <<< (8 * size) : Nat)

instance (size : Nat) (value : Int) : Decidable (LiteralFits size value) :=
  inferInstanceAs (Decidable (0 ≤ value ∧ value < (1 <<< (8 * size) : Nat)))

/-- The sizes of the general purpose registers. -/
inductive Register.HasSize : Register → Nat → Prop
  | word (index : Fin 16) : HasSize (.word index) 2
  | byte (index : Fin 16) : HasSize (.byte index) 1

/-- An operand that some encoding holds. -/
def Operand.Encodable : Operand → Prop
  | reg r width => r.HasSize width
  | short _ width | mem _ width => width = 1 ∨ width = 2
  | imm value width => LiteralFits width value.val
  | indirect base _ width disp => base.HasSize 2 ∧ (width = 1 ∨ width = 2) ∧ LiteralFits 2 disp
  | bit offset _ | bitWord offset => LiteralFits 1 offset
  | target address => LiteralFits 3 address
  | extension _ => True

theorem Register.wordAt_hasSize (field : Int) : (wordAt field).HasSize 2 :=
  .word _

theorem Register.ofField_hasSize (field : Int) {width : Nat} (h : width = 1 ∨ width = 2) :
    (ofField field width).HasSize width := by
  rcases h with rfl | rfl
  · exact .byte _
  · exact .word _

/-! ## Fields -/

theorem literalFits_of_lt {size n : Nat} (h : n < 1 <<< (8 * size)) : LiteralFits size n :=
  ⟨Int.natCast_nonneg n, Int.ofNat_lt.2 h⟩

theorem byte_literalFits (b : Fin 256) : LiteralFits 1 b.val :=
  literalFits_of_lt b.isLt

theorem word_literalFits (w : Fin 65536) : LiteralFits 2 w.val :=
  literalFits_of_lt w.isLt

theorem segmentBase_lt (addr : Int) : segmentBase addr < 0xFF0001 := by
  have hlow : lowBits 8 (addr / 0x10000) < 256 := lowBits_lt 8 _
  unfold segmentBase
  omega

theorem relativeTarget_literalFits (pc displacement : Int) (length : Nat) :
    LiteralFits 3 (relativeTarget pc displacement length) :=
  literalFits_of_lt (lowBits_lt 24 _)

namespace Operand

variable {width : Nat}

theorem ofNibble_encodable (field : Fin 16) (h : width = 1 ∨ width = 2) : (ofNibble field width).Encodable :=
  Register.ofField_hasSize _ h

theorem ofPointer_encodable (field : Fin 16) (mode : IndirectMode) (h : width = 1 ∨ width = 2) :
    (ofPointer field mode width).Encodable :=
  ⟨Register.wordAt_hasSize _, h, by decide⟩

theorem ofDisplaced_encodable (field : Fin 16) (disp : Fin 65536) (h : width = 1 ∨ width = 2) :
    (ofDisplaced field disp width).Encodable :=
  ⟨Register.wordAt_hasSize _, h, word_literalFits disp⟩

/-- A field of at most a byte fits any width. -/
theorem ofSmall_encodable {n : Nat} (value : Fin n) (hn : n ≤ 65536) (hbyte : n ≤ 256) (h : width = 1 ∨ width = 2) :
    (ofSmall value hn width).Encodable := by
  have hlt := value.isLt
  refine literalFits_of_lt ?_
  rcases h with rfl | rfl <;> (simp only [Fin.val_castLE]; omega)

end Operand

/-! ## Layouts -/

section Layouts

variable {entry : OpcodeEntry} {layout : Layout} {pc : Int} {i : Instruction}

/-- What the fields of a layout rest on: operands are bytes or words, and a whole word is not given as a byte. -/
structure OpcodeEntry.FieldsFit (entry : OpcodeEntry) (layout : Layout) : Prop where
  width : entry.width = 1 ∨ entry.width = 2
  word : layout = .shortWord ∨ layout = .regWord → entry.width = 2

theorem OpcodeEntry.imm_encodable (data : Fin 65536) (h : entry.width = 2) :
    (Operand.imm data entry.width).Encodable := by
  rw [h]
  exact word_literalFits data

theorem Layout.Pair.encodable {dst src : Operand} (hfit : entry.FieldsFit layout) (h : layout.Pair entry dst src) :
    dst.Encodable ∧ src.Encodable := by
  have hw := hfit.width
  cases h with
  | regReg dst src => exact ⟨Operand.ofNibble_encodable dst hw, Operand.ofNibble_encodable src hw⟩
  | regPointer dst index => exact ⟨Operand.ofNibble_encodable dst hw, Operand.ofPointer_encodable _ _ hw⟩
  | regStepped dst index => exact ⟨Operand.ofNibble_encodable dst hw, Operand.ofPointer_encodable _ _ hw⟩
  | regData3 dst data => exact ⟨Operand.ofNibble_encodable dst hw, Operand.ofSmall_encodable data _ (by decide) hw⟩
  | shortByte code data byte => exact ⟨hw, Operand.ofSmall_encodable data _ (by decide) hw⟩
  | shortImm code data word => exact ⟨hw, OpcodeEntry.imm_encodable data (hw.resolve_left word)⟩
  | shortWord code data => exact ⟨hw, OpcodeEntry.imm_encodable data (hfit.word (.inl rfl))⟩
  | shortMem code raw => exact ⟨hw, hw⟩
  | memShort raw code => exact ⟨hw, hw⟩
  | regImm4 dst data => exact ⟨Operand.ofNibble_encodable dst hw, Operand.ofSmall_encodable data _ (by decide) hw⟩
  | regMem dst raw => exact ⟨Operand.ofNibble_encodable dst hw, hw⟩
  | regWord dst data =>
    exact ⟨Operand.ofNibble_encodable dst hw, OpcodeEntry.imm_encodable data (hfit.word (.inr rfl))⟩
  | shiftCount dst count =>
    exact ⟨Operand.ofNibble_encodable dst hw, Operand.ofSmall_encodable count _ (by decide) (.inl rfl)⟩
  | bitPair dstOffset srcOffset => exact ⟨byte_literalFits dstOffset, byte_literalFits srcOffset⟩
  | load mode dst src => exact ⟨Operand.ofNibble_encodable dst hw, Operand.ofPointer_encodable src mode hw⟩
  | save mode dst src => exact ⟨Operand.ofPointer_encodable dst mode hw, Operand.ofNibble_encodable src hw⟩
  | transfer dstMode srcMode dst src =>
    exact ⟨Operand.ofPointer_encodable dst dstMode hw, Operand.ofPointer_encodable src srcMode hw⟩
  | loadDisp dst src disp => exact ⟨Operand.ofNibble_encodable dst hw, Operand.ofDisplaced_encodable src disp hw⟩
  | saveDisp dst src disp => exact ⟨Operand.ofDisplaced_encodable dst disp hw, Operand.ofNibble_encodable src hw⟩
  | pointerMem dst raw => exact ⟨Operand.ofPointer_encodable dst _ hw, hw⟩
  | memPointer raw src => exact ⟨hw, Operand.ofPointer_encodable src _ hw⟩
  | wordByte dst src => exact ⟨Operand.ofNibble_encodable dst (.inr rfl), Operand.ofNibble_encodable src (.inl rfl)⟩
  | shortMemByte code raw => exact ⟨.inr rfl, .inl rfl⟩
  | memShortByte raw code => exact ⟨.inr rfl, .inl rfl⟩

/-- A number that fits its literal is not cut when it becomes an immediate. -/
theorem Operand.ofNat_encodable {value width : Nat} (hword : value < 65536) (h : value < 1 <<< (8 * width)) :
    (Operand.ofNat value width).Encodable := by
  have hval : (Fin.ofNat 65536 value).val = value := Nat.mod_eq_of_lt hword
  exact literalFits_of_lt (hval.symm ▸ h)

theorem Extension.Encoded.encodable {ext : Extension} (h : ext.Encoded layout) :
    (∀ bind ∈ ext.shown, bind.2.Encodable) ∧ (Operand.ofNat ext.count.toNat 1).Encodable := by
  obtain ⟨hpos, hle⟩ := h.count_bounds
  refine ⟨?_, Operand.ofNat_encodable (by omega) (by omega)⟩
  cases h with
  | atomic | bank => simp [shown]
  | segment kind count value =>
    have hlt := value.isLt
    simp only [shown, List.forall_mem_singleton]
    exact Operand.ofNat_encodable (by omega) (by omega)
  | page kind count value =>
    have hlt := value.isLt
    simp only [shown, List.forall_mem_singleton]
    exact Operand.ofNat_encodable (by omega) (by omega)
  | register selector count field =>
    simp only [shown, List.forall_mem_singleton]
    exact Register.wordAt_hasSize _

theorem Layout.Yields.encodable (hfit : entry.FieldsFit layout) (h : layout.Yields entry pc i) :
    ∀ bind ∈ i.binds, bind.2.Encodable := by
  have hbase := segmentBase_lt pc
  cases h with
  | pair operands =>
    obtain ⟨hdst, hsrc⟩ := operands.encodable hfit
    exact List.forall_mem_cons.2 ⟨hdst, List.forall_mem_singleton.2 hsrc⟩
  | dstReg field => exact List.forall_mem_singleton.2 (Operand.ofNibble_encodable field hfit.width)
  | srcReg field => exact List.forall_mem_singleton.2 (Operand.ofNibble_encodable field hfit.width)
  | bit offset pos => exact List.forall_mem_singleton.2 (byte_literalFits offset)
  | bitField dataFirst offset mask data =>
    refine List.forall_mem_cons.2 ⟨byte_literalFits offset, List.forall_mem_cons.2 ⟨?_, List.forall_mem_singleton.2 ?_⟩⟩
    · exact Operand.ofSmall_encodable mask _ (by decide) (.inl rfl)
    · exact Operand.ofSmall_encodable data _ (by decide) (.inl rfl)
  | bitJump offset pos displacement =>
    exact List.forall_mem_cons.2
      ⟨byte_literalFits offset, List.forall_mem_singleton.2 (relativeTarget_literalFits pc displacement 4)⟩
  | conditionalRelative cond displacement =>
    exact List.forall_mem_singleton.2 (relativeTarget_literalFits pc displacement 2)
  | absolute cond offset =>
    have hlt := offset.isLt
    exact List.forall_mem_singleton.2 (literalFits_of_lt (by omega))
  | segmented segment offset =>
    have hsegment := segment.isLt
    have hoffset := offset.isLt
    refine List.forall_mem_cons.2 ⟨?_, List.forall_mem_singleton.2 (literalFits_of_lt (by omega))⟩
    exact Operand.ofSmall_encodable segment _ (by decide) (.inl rfl)
  | pointerBranch base => exact List.forall_mem_singleton.2 (Operand.ofPointer_encodable base _ (.inr rfl))
  | relative displacement => exact List.forall_mem_singleton.2 (relativeTarget_literalFits pc displacement 2)
  | short code => exact List.forall_mem_singleton.2 hfit.width
  | trap number =>
    have hlt := number.isLt
    refine List.forall_mem_cons.2 ⟨?_, List.forall_mem_singleton.2 (literalFits_of_lt (by omega))⟩
    exact Operand.ofSmall_encodable number _ (by decide) (.inl rfl)
  | plain | protectedOpcode => exact List.forall_mem_nil _
  | extension encoded =>
    obtain ⟨hshown, hcount⟩ := encoded.encodable
    refine List.forall_mem_cons.2 ⟨trivial, List.forall_mem_append.2 ⟨hshown, List.forall_mem_singleton.2 hcount⟩⟩

/-- A register has the width of the row, except in the layouts that give it one of their own. -/
theorem Layout.Yields.reg_width (h : layout.Yields entry pc i) :
    ∀ bind ∈ i.binds, ∀ r width, bind.2 = .reg r width →
      width = entry.width ∨ layout = .wordByte ∨ layout = .extensionRegister := by
  cases h
  case pair dst src operands =>
    cases operands <;>
      simp +contextual [OpcodeEntry.simple, OpcodeEntry.filled, Operand.ofNibble, Operand.ofPointer, Operand.ofSmall,
        Operand.ofDisplaced]
  case extension ext encoded =>
    cases encoded <;>
      simp [OpcodeEntry.extending, OpcodeEntry.filled, Extension.shown, Operand.ofNat]
  all_goals
    simp +contextual [OpcodeEntry.simple, OpcodeEntry.filled, Operand.ofNibble, Operand.ofPointer, Operand.ofSmall]

/-- Where a row has two registers, or a register and a count, the only immediate is a byte. -/
theorem Layout.Yields.count_width (h : layout.Yields entry pc i) (hlayout : layout = .regReg ∨ layout = .shiftCount) :
    ∀ bind ∈ i.binds, ∀ value width, bind.2 = .imm value width → width = 1 := by
  cases h
  case pair dst src operands =>
    cases operands
    case regReg | shiftCount =>
      simp +contextual [OpcodeEntry.simple, OpcodeEntry.filled, Operand.ofNibble, Operand.ofSmall]
    all_goals simp at hlayout
  case extension ext encoded => cases encoded <;> simp at hlayout
  all_goals simp at hlayout

end Layouts

/-! ## The opcode table -/

/-- The families whose registers are words, whatever the operand says. -/
def wordFamilies : List Family := [.cmpStep, .mul, .div, .shift, .prior]

theorem opcodeTable_width : ∀ entry ∈ opcodeTable, entry.width = 1 ∨ entry.width = 2 := by
  decide +kernel

theorem opcodeTable_word : ∀ entry ∈ opcodeTable,
    entry.layout = .shortWord ∨ entry.layout = .regWord → entry.width = 2 := by
  decide +kernel

theorem opcodeTable_wordFamilies : ∀ entry ∈ opcodeTable, entry.family ∈ wordFamilies →
    entry.width = 2 ∧ entry.layout ≠ .wordByte ∧ entry.layout ≠ .extensionRegister := by
  decide +kernel

theorem opcodeTable_shift : ∀ entry ∈ opcodeTable, entry.family = .shift →
    entry.layout = .regReg ∨ entry.layout = .shiftCount := by
  decide +kernel

theorem opcodeTable_cmpStep : ∀ entry ∈ opcodeTable, entry.family = .cmpStep →
    ∃ amount ∈ [1, 2, -1, -2], entry.operation = some (.step amount) := by
  decide +kernel

/-! ## Decoded instructions -/

/-- The instruction holds what an encoding can hold. -/
structure Instruction.Regular (i : Instruction) : Prop where
  operands : ∀ {slot op}, i.operand slot = .ok op → op.Encodable
  /-- Registers that are used as words are words. -/
  words : i.family ∈ wordFamilies → ∀ {slot r width}, i.operand slot = .ok (.reg r width) → r.HasSize 2
  /-- The count of a shift is a byte. -/
  counts : i.family = .shift → ∀ {slot value width}, i.operand slot = .ok (.imm value width) → LiteralFits 1 value.val
  /-- A compare-and-step moves by one or two. -/
  steps : i.family = .cmpStep → ∀ {amount}, i.stepAmount = .ok amount → -2 ≤ amount ∧ amount ≤ 2
  policies : ∀ policy ∈ i.flags, policy ∈ FlagPolicy.known

theorem Family.flags_known (family : Family) : ∀ policy ∈ family.flags, policy ∈ FlagPolicy.known := by
  cases family <;> simp [Family.flags, FlagPolicy.known]

theorem regular_of_decode {bytes : List UInt8} {addr : Int} {i : Instruction} (h : decode bytes addr = .ok i) :
    i.Regular := by
  obtain ⟨entry, hmem, hyields⟩ := decode_yields h
  obtain ⟨hfamily, -, hoperation⟩ := hyields.header
  have hencodable := hyields.encodable ⟨opcodeTable_width entry hmem, opcodeTable_word entry hmem⟩
  constructor
  · intro slot op hop
    exact hencodable _ (mem_binds_of_operand hop)
  · intro hwords slot r width hop
    rw [hfamily] at hwords
    obtain ⟨htwo, hmixed, hextension⟩ := opcodeTable_wordFamilies entry hmem hwords
    have hreg : r.HasSize width := hencodable _ (mem_binds_of_operand hop)
    rcases hyields.reg_width _ (mem_binds_of_operand hop) r width rfl with hwidth | hlayout | hlayout
    · rw [hwidth, htwo] at hreg
      exact hreg
    · exact absurd hlayout hmixed
    · exact absurd hlayout hextension
  · intro hshift slot value width hop
    have himm : LiteralFits width value.val := hencodable _ (mem_binds_of_operand hop)
    have hlayout := opcodeTable_shift entry hmem (hfamily ▸ hshift)
    rw [hyields.count_width hlayout _ (mem_binds_of_operand hop) value width rfl] at himm
    exact himm
  · intro hstep amount hamount
    obtain ⟨step, hrange, hentry⟩ := opcodeTable_cmpStep entry hmem (hfamily ▸ hstep)
    rw [Instruction.stepAmount, hoperation, hentry] at hamount
    cases hamount
    simp only [List.mem_cons, List.not_mem_nil, or_false] at hrange
    omega
  · rw [hyields.flags_eq]
    exact i.family.flags_known

end Lift166
