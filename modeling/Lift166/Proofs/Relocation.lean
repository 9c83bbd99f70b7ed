import Lift166.Proofs.Encodings
import Lift166.Proofs.WellFormed

/-!
# Decoding at another address

The address of an instruction enters only into its branch targets and into the address that an error names. So bytes
that are decoded in two places give the same instruction with its targets moved, `Relocated`, and the layout alone
says how they move: with the instruction, with its segment, or not at all.
-/

namespace Lift166

/-! ## Moved targets -/

/-- The operand with its target moved, if it is one. -/
def Operand.retarget (move : Int → Int) : Operand → Operand
  | target address => target (move address)
  | op => op

/-- The instruction with its targets moved. -/
def Instruction.retarget (i : Instruction) (move : Int → Int) : Instruction :=
  { i with binds := i.binds.map fun bind => (bind.1, bind.2.retarget move) }

/-- The same error, but for the address that it names. -/
inductive DecodeError.Alike : DecodeError → DecodeError → Prop
  | tooShort (need available : Nat) : Alike (.tooShort need available) (.tooShort need available)
  | unknownOpcode (opcode : Int) (a b : Option Int) : Alike (.unknownOpcode opcode a) (.unknownOpcode opcode b)
  | unsupported (mnemonic : String) (a b : Int) (cause : Unsupported) :
      Alike (.unsupported mnemonic a cause) (.unsupported mnemonic b cause)

/-- What is decoded in two places: an instruction and the same one with its targets moved, or the same error. With
`id` as the move the instructions are equal, by `Instruction.retarget_id`. -/
inductive Relocated (move : Int → Int) : Except DecodeError Instruction → Except DecodeError Instruction → Prop
  | ok (i : Instruction) : Relocated move (.ok i) (.ok (i.retarget move))
  | error {e e' : DecodeError} (alike : e.Alike e') : Relocated move (.error e) (.error e')

theorem Operand.retarget_eq_self {move : Int → Int} {op : Operand} (h : ∀ t, op = .target t → move t = t) :
    op.retarget move = op := by
  cases op with
  | target t => rw [retarget, h t rfl]
  | _ => rfl

theorem Instruction.retarget_eq_self {move : Int → Int} {i : Instruction}
    (h : ∀ slot t, (slot, Operand.target t) ∈ i.binds → move t = t) : i.retarget move = i := by
  have hbind : ∀ bind ∈ i.binds, (bind.1, bind.2.retarget move) = id bind := by
    rintro ⟨slot, op⟩ hmem
    have hop : op.retarget move = op := Operand.retarget_eq_self fun t ht => h slot t (ht ▸ hmem)
    exact congrArg (Prod.mk slot) hop
  rw [retarget, List.map_congr_left hbind, List.map_id]

theorem Instruction.retarget_id (i : Instruction) : i.retarget id = i :=
  retarget_eq_self fun _ _ _ => rfl

theorem DecodeError.Alike.refl (e : DecodeError) : e.Alike e := by
  cases e with
  | tooShort need available => exact .tooShort need available
  | unknownOpcode opcode addr => exact .unknownOpcode opcode addr addr
  | unsupported mnemonic addr cause => exact .unsupported mnemonic addr addr cause

namespace Relocated

variable {move : Int → Int}

theorem error_refl (e : DecodeError) : Relocated move (.error e) (.error e) :=
  .error (.refl e)

theorem refl (answer : Except DecodeError Instruction) : Relocated id answer answer := by
  cases answer with
  | error e => exact error_refl e
  | ok i =>
    have hmoved : Relocated id (.ok i) (.ok (i.retarget id)) := .ok i
    rwa [i.retarget_id] at hmoved

/-- A field is read from the bytes, so it is the same in both places. -/
theorem bind {α : Type} {first : Except DecodeError α} {next next' : α → Except DecodeError Instruction}
    (h : ∀ value, Relocated move (next value) (next' value)) : Relocated move (first >>= next) (first >>= next') := by
  cases first with
  | error e => exact error_refl e
  | ok value => exact h value

theorem unsupported (mnemonic : String) (a b : Int) (cause : Unsupported) :
    Relocated move (.error (.unsupported mnemonic a cause)) (.error (.unsupported mnemonic b cause)) :=
  .error (.unsupported mnemonic a b cause)

theorem special (entry : OpcodeEntry) {a b : Int} {bytes : List UInt8} {mnemonic : String} {cond : Option Condition}
    {binds binds' : List (Slot × Operand)} {display : List Slot}
    (hbinds : binds' = binds.map fun bind => (bind.1, bind.2.retarget move)) :
    Relocated move (entry.special ⟨a, bytes⟩ mnemonic cond binds display)
      (entry.special ⟨b, bytes⟩ mnemonic cond binds' display) := by
  subst hbinds
  refine bind fun _ => ?_
  exact .ok (entry.filled mnemonic cond binds display)

/-- A move that leaves the targets of the instruction where they are leaves the instruction as it is. -/
theorem same {answer answer' : Except DecodeError Instruction} (h : Relocated move answer answer')
    (hself : ∀ i, answer = .ok i → ∀ slot t, (slot, Operand.target t) ∈ i.binds → move t = t) :
    Relocated id answer answer' := by
  cases h with
  | error alike => exact .error alike
  | ok i =>
    rw [Instruction.retarget_eq_self (hself i rfl)]
    exact refl _

end Relocated

/-! ## Address arithmetic -/

theorem wrapAddress_eq (x : Int) : (wrapAddress x : Int) = x % 0x1000000 := by
  have hspace : ((1 <<< 24 : Nat) : Int) = 0x1000000 := rfl
  unfold wrapAddress lowBits
  rw [hspace]
  omega

theorem segmentBase_eq (x : Int) : (segmentBase x : Int) = x / 0x10000 % 256 * 0x10000 := by
  have hsegments : ((1 <<< 8 : Nat) : Int) = 256 := rfl
  unfold segmentBase lowBits
  rw [hsegments]
  omega

theorem segmentBase_congr {a b : Int} (h : a / 0x10000 % 256 = b / 0x10000 % 256) : segmentBase a = segmentBase b := by
  have ha := segmentBase_eq a
  have hb := segmentBase_eq b
  omega

theorem segmentBase_moved (a b : Int) (offset : Nat) :
    ((segmentBase b + offset : Nat) : Int) = (segmentBase a + offset : Nat) + (segmentBase b - segmentBase a) := by
  omega

theorem relativeTarget_eq (pc displacement : Int) (length : Nat) :
    relativeTarget pc displacement length = (pc + length + 2 * displacement) % 0x1000000 := by
  rw [relativeTarget, wrapAddress_eq]
  congr 1
  omega

theorem relativeTarget_moved (a b displacement : Int) (length : Nat) :
    relativeTarget b displacement length = (relativeTarget a displacement length + (b - a)) % 0x1000000 := by
  rw [relativeTarget_eq, relativeTarget_eq]
  omega

/-- The number is the value of the byte when its top bit counts as the sign. -/
def IsSignedByte (byte : UInt8) (value : Int) : Prop :=
  -128 ≤ value ∧ value ≤ 127 ∧ value % 256 = byte.toNat

theorem signExtend_isSignedByte (byte : UInt8) : IsSignedByte byte (signExtend 8 byte.toNat) := by
  have hlt := byte.toNat_lt
  have hbytes : (1 <<< 8 : Nat) = 256 := rfl
  unfold IsSignedByte signExtend
  rw [Int.bmod_def, hbytes]
  split <;> omega

theorem Window.rel8_eq_ok {w : Window} {index : Nat} {displacement : Int} (h : w.rel8 index = .ok displacement) :
    ∃ byte, w.bytes[index]? = some byte ∧ IsSignedByte byte displacement := by
  obtain ⟨value, hvalue, rfl⟩ := map_ok_iff.1 h
  obtain ⟨byte, hbyte, rfl⟩ := byte_eq_ok hvalue
  exact ⟨byte, hbyte, signExtend_isSignedByte byte⟩

/-! ## What a layout takes from the address -/

/-- What the target of an instruction is reckoned from. -/
inductive TargetBase
  /-- The address of the instruction. -/
  | place
  /-- The first address of its segment. -/
  | segment
  /-- Nothing: the target is absolute, or there is none. -/
  | fixed
deriving DecidableEq

/-- What a layout reckons its target from. -/
def Layout.targetBase : Layout → TargetBase
  | bitJump | conditionalRelative | relative => .place
  | absolute | trap => .segment
  | _ => .fixed

/-- How a target moves with an instruction that is moved from `a` to `b`. -/
def TargetBase.move (a b : Int) : TargetBase → Int → Int
  | place, t => (t + (b - a)) % 0x1000000
  | segment, t => t + (segmentBase b - segmentBase a)
  | fixed, t => t

/-- Targets stay where they are if the distance is a multiple of the address space and the segment is the same. -/
theorem TargetBase.move_eq_self (base : TargetBase) {a b t : Int} (hplace : (t + (b - a)) % 0x1000000 = t)
    (hsegment : segmentBase a = segmentBase b) : base.move a b t = t := by
  cases base with
  | place => exact hplace
  | segment =>
    rw [move, hsegment]
    omega
  | fixed => rfl

theorem Layout.decode_relocated (layout : Layout) (entry : OpcodeEntry) (bytes : List UInt8) (a b : Int) :
    Relocated (layout.targetBase.move a b) (layout.decode entry ⟨a, bytes⟩) (layout.decode entry ⟨b, bytes⟩) := by
  cases layout
  case bitJump =>
    refine .bind fun offset => .bind fun pos => .bind fun displacement => .special entry ?_
    rw [relativeTarget_moved a b]
    rfl
  case conditionalRelative =>
    refine .bind fun cond => .bind fun displacement => .special entry ?_
    rw [relativeTarget_moved a b]
    rfl
  case relative =>
    refine .bind fun displacement => .special entry ?_
    rw [relativeTarget_moved a b]
    rfl
  case absolute =>
    refine .bind fun cond => .bind fun offset => .special entry ?_
    rw [segmentBase_moved a b]
    rfl
  case trap =>
    refine .bind fun number => .special entry ?_
    rw [segmentBase_moved a b]
    rfl
  -- these name the address when they refuse
  case pointerBranch =>
    refine .bind fun field => .bind fun base => ?_
    generalize Condition.ofNibble field = cond
    cases cond
    case uc => exact .special entry rfl
    all_goals exact .unsupported _ a b _
  case pushAndCall => exact .bind fun _ => .unsupported _ a b _
  case protectedOpcode =>
    refine .bind fun inverted => .bind fun second => .bind fun third => ?_
    split
    · exact .special entry rfl
    · exact .unsupported _ a b _
  case extensionShort =>
    refine .bind fun selector => .bind fun count => ?_
    split
    · exact .special entry rfl
    · exact .special entry rfl
    · exact .unsupported _ a b _
  -- and the others never look at it
  all_goals exact .refl _

/-- The place of the displacement in a relative branch: the second byte of two, or the third of four. -/
def OpcodeEntry.displacementIndex (entry : OpcodeEntry) : Nat :=
  if entry.length = 2 then 1 else 2

theorem target_of_displacement {w : Window} {i : Instruction} {index length : Nat} {d : Int}
    (hd : w.rel8 index = .ok d) (htarget : i.operand .target = .ok (.target (relativeTarget w.pc d length))) :
    ∃ byte d, w.bytes[index]? = some byte ∧ IsSignedByte byte d ∧
      i.operand .target = .ok (.target ((w.pc + length + 2 * d) % 0x1000000)) := by
  obtain ⟨byte, hbyte, hsigned⟩ := Window.rel8_eq_ok hd
  rw [relativeTarget_eq] at htarget
  exact ⟨byte, d, hbyte, hsigned, htarget⟩

theorem Layout.target_of_decode {layout : Layout} {entry : OpcodeEntry} {w : Window} {i : Instruction}
    (hsize : entry.length = layout.size) (hbase : layout.targetBase = .place)
    (h : layout.decode entry w = .ok i) :
    ∃ byte d, w.bytes[entry.displacementIndex]? = some byte ∧ IsSignedByte byte d ∧
      i.operand .target = .ok (.target ((w.pc + entry.length + 2 * d) % 0x1000000)) := by
  have hindex : entry.displacementIndex = if layout.size = 2 then 1 else 2 := by
    rw [← hsize]
    rfl
  rw [hindex, hsize]
  cases layout
  case bitJump =>
    simp only [decode, bind_ok_iff] at h
    obtain ⟨offset, -, pos, -, d, hd, h⟩ := h
    obtain ⟨-, rfl⟩ := OpcodeEntry.special_eq_ok.1 h
    exact target_of_displacement hd rfl
  case conditionalRelative =>
    simp only [decode, bind_ok_iff] at h
    obtain ⟨cond, -, d, hd, h⟩ := h
    obtain ⟨-, rfl⟩ := OpcodeEntry.special_eq_ok.1 h
    exact target_of_displacement hd rfl
  case relative =>
    simp only [decode, bind_ok_iff] at h
    obtain ⟨d, hd, h⟩ := h
    obtain ⟨-, rfl⟩ := OpcodeEntry.special_eq_ok.1 h
    exact target_of_displacement hd rfl
  all_goals cases hbase

/-! ## Decoding -/

/-- The branches whose target is reckoned from their own address. -/
def relativeMnemonics : List String := ["jmpr", "callr", "jb", "jnb", "jbc", "jnbs"]

/-- The branches whose target is reckoned from their segment. -/
def segmentMnemonics : List String := ["jmpa", "calla", "trap"]

theorem opcodeTable_targetBase : ∀ entry ∈ opcodeTable,
    (entry.mnemonic ∈ relativeMnemonics ↔ entry.layout.targetBase = .place) ∧
    (entry.mnemonic ∈ segmentMnemonics ↔ entry.layout.targetBase = .segment) := by
  decide +kernel

theorem targets_inAddressSpace {bytes : List UInt8} {a : Int} {i : Instruction} (h : decode bytes a = .ok i)
    {slot : Slot} {t : Int} (hmem : (slot, Operand.target t) ∈ i.binds) : InAddressSpace t := by
  obtain ⟨entry, hentry, hyields⟩ := decode_yields h
  have hencodable := hyields.encodable ⟨opcodeTable_width entry hentry, opcodeTable_word entry hentry⟩
  exact literalFits_address_iff.1 (hencodable _ hmem)

section Rows

variable {bytes : List UInt8} {first : UInt8} {entry : OpcodeEntry} (hfirst : bytes.head? = some first)
  (hrow : opcodeEntry? first.toNat = some entry)

include hfirst hrow

/-- Decoding in another place moves the targets as the row reckons them, and does nothing else. -/
theorem decode_relocated (a b : Int) :
    Relocated (entry.layout.targetBase.move a b) (decode bytes a) (decode bytes b) := by
  rw [decode_eq_layout hfirst hrow, decode_eq_layout hfirst hrow]
  exact entry.layout.decode_relocated entry (bytes.take 4) a b

theorem decode_relative_moved (hrelative : entry.mnemonic ∈ relativeMnemonics) (a k : Int) :
    Relocated (fun t => (t + k) % 0x1000000) (decode bytes a) (decode bytes (a + k)) := by
  have hbase := (opcodeTable_targetBase entry (mem_opcodeTable hrow)).1.1 hrelative
  have hmove : TargetBase.place.move a (a + k) = fun t => (t + k) % 0x1000000 := by
    funext t
    rw [TargetBase.move]
    congr 1
    omega
  have hmoved := decode_relocated hfirst hrow a (a + k)
  rwa [hbase, hmove] at hmoved

theorem decode_relative_target (hrelative : entry.mnemonic ∈ relativeMnemonics) {a : Int} {i : Instruction}
    (h : decode bytes a = .ok i) :
    ∃ byte d, bytes[entry.displacementIndex]? = some byte ∧ IsSignedByte byte d ∧
      i.operand .target = .ok (.target ((a + i.length + 2 * d) % 0x1000000)) := by
  have hmem := mem_opcodeTable hrow
  have hbase := (opcodeTable_targetBase entry hmem).1.1 hrelative
  have hlength := (complete_of_row hfirst hrow h).1
  rw [decode_eq_layout hfirst hrow] at h
  obtain ⟨byte, d, hbyte, hsigned, htarget⟩ :=
    Layout.target_of_decode (opcodeTable_size entry hmem) hbase h
  have hindex : entry.displacementIndex < 4 := by
    unfold OpcodeEntry.displacementIndex
    split <;> decide
  rw [List.getElem?_take_of_lt hindex] at hbyte
  exact ⟨byte, d, hbyte, hsigned, hlength ▸ htarget⟩

theorem decode_same_segment (hsegment : entry.mnemonic ∈ segmentMnemonics) {a b : Int}
    (h : a / 0x10000 % 256 = b / 0x10000 % 256) : Relocated id (decode bytes a) (decode bytes b) := by
  have hbase := (opcodeTable_targetBase entry (mem_opcodeTable hrow)).2.1 hsegment
  refine (decode_relocated hfirst hrow a b).same fun i _ slot t _ => ?_
  rw [hbase, TargetBase.move, segmentBase_congr h]
  omega

theorem decode_anywhere (hrelative : entry.mnemonic ∉ relativeMnemonics) (hsegment : entry.mnemonic ∉ segmentMnemonics)
    (a b : Int) : Relocated id (decode bytes a) (decode bytes b) := by
  obtain ⟨hplace, hsegments⟩ := opcodeTable_targetBase entry (mem_opcodeTable hrow)
  refine (decode_relocated hfirst hrow a b).same fun i _ slot t _ => ?_
  cases hbase : entry.layout.targetBase with
  | place => exact absurd (hplace.2 hbase) hrelative
  | segment => exact absurd (hsegments.2 hbase) hsegment
  | fixed => rfl

end Rows

/-- Addresses that are equal in the address space are the same place. -/
theorem decode_congruent (bytes : List UInt8) {a b : Int} (h : a % 0x1000000 = b % 0x1000000) :
    Relocated id (decode bytes a) (decode bytes b) := by
  cases hfirst : bytes.head? with
  | none =>
    rw [List.head?_eq_none_iff.1 hfirst, decode_nil, decode_nil]
    exact .refl _
  | some first =>
    cases hrow : opcodeEntry? first.toNat with
    | none =>
      rw [decode_unknown hfirst hrow, decode_unknown hfirst hrow]
      exact .error (.unknownOpcode _ _ _)
    | some entry =>
      refine (decode_relocated hfirst hrow a b).same fun i hdecode slot t hmem => ?_
      obtain ⟨hnonneg, hle⟩ := targets_inAddressSpace hdecode hmem
      exact entry.layout.targetBase.move_eq_self (by omega) (segmentBase_congr (by omega))

/-- **Decoding depends on the address only through branch targets.** Addresses that are equal modulo the address
space give the same instruction or the same sort of error, and every target lies in the address space. The target of
a relative branch moves with it, and lies behind it by twice the signed displacement byte. A branch within the segment
depends on the segment alone, and every other instruction on nothing. -/
theorem decode_depends_on_address_through_targets (bytes : List UInt8) :
    (∀ a b : Int, a % 0x1000000 = b % 0x1000000 → Relocated id (decode bytes a) (decode bytes b)) ∧
    (∀ a i, decode bytes a = .ok i → ∀ slot t, (slot, Operand.target t) ∈ i.binds → InAddressSpace t) ∧
    ∀ first entry, bytes.head? = some first → opcodeEntry? first.toNat = some entry →
      (entry.mnemonic ∈ relativeMnemonics →
        (∀ a k, Relocated (fun t => (t + k) % 0x1000000) (decode bytes a) (decode bytes (a + k))) ∧
        ∀ a i, decode bytes a = .ok i → ∃ byte d, bytes[entry.displacementIndex]? = some byte ∧ IsSignedByte byte d ∧
          i.operand .target = .ok (.target ((a + i.length + 2 * d) % 0x1000000))) ∧
      (entry.mnemonic ∈ segmentMnemonics → ∀ a b : Int, a / 0x10000 % 256 = b / 0x10000 % 256 →
        Relocated id (decode bytes a) (decode bytes b)) ∧
      (entry.mnemonic ∉ relativeMnemonics → entry.mnemonic ∉ segmentMnemonics →
        ∀ a b, Relocated id (decode bytes a) (decode bytes b)) := by
  refine ⟨fun a b h => decode_congruent bytes h, fun a i h slot t hmem => targets_inAddressSpace h hmem, ?_⟩
  intro first entry hfirst hrow
  refine ⟨fun hrelative => ⟨?_, ?_⟩, ?_, ?_⟩
  · exact decode_relative_moved hfirst hrow hrelative
  · intro a i h
    exact decode_relative_target hfirst hrow hrelative h
  · intro hsegment a b h
    exact decode_same_segment hfirst hrow hsegment h
  · exact decode_anywhere hfirst hrow

/-- A relative jump back over the start of the address space, a jump within a segment, and an idle instruction. -/
theorem decode_depends_on_address_through_targets_jumpBack :
    Relocated id (decode [0x0D, 0xFE] (-2)) (decode [0x0D, 0xFE] 0xFFFFFE) ∧
    Relocated (fun t => (t + 7) % 0x1000000) (decode [0x0D, 0xFE] 0) (decode [0x0D, 0xFE] (0 + 7)) ∧
    (∃ i byte d, decode [0x0D, 0xFE] 0 = .ok i ∧ ([0x0D, 0xFE] : List UInt8)[1]? = some byte ∧ IsSignedByte byte d ∧
      i.operand .target = .ok (.target ((0 + i.length + 2 * d) % 0x1000000)) ∧
      InAddressSpace ((0 + i.length + 2 * d) % 0x1000000)) ∧
    Relocated id (decode [0xEA, 0x00, 0x34, 0x12] 0x50000) (decode [0xEA, 0x00, 0x34, 0x12] 0x105FFFE) ∧
    Relocated id (decode [0xCC, 0x00] 0) (decode [0xCC, 0x00] (-3)) := by
  have hjmpr : opcodeEntry? (0x0D : UInt8).toNat
      = some (.usual 0x0D "jmpr" .jump .conditionalRelative (some (.transfer .relative))) := by
    decide +kernel
  have hjmpa : opcodeEntry? (0xEA : UInt8).toNat = some
      { OpcodeEntry.usual 0xEA "jmpa" .jump .absolute (some (.transfer .absolute)) with length := 4 } := by
    decide +kernel
  have hnop : opcodeEntry? (0xCC : UInt8).toNat = some (.usual 0xCC "nop" .nop .plain none) := by
    decide +kernel
  obtain ⟨i, hdecode⟩ : ∃ i, decode [0x0D, 0xFE] 0 = .ok i := ⟨_, (decode_eq_layout rfl hjmpr 0).trans rfl⟩
  obtain ⟨hcongruent, hspace, hrelative⟩ := decode_depends_on_address_through_targets [0x0D, 0xFE]
  obtain ⟨hmoved, htarget⟩ := (hrelative _ _ rfl hjmpr).1 (by decide)
  obtain ⟨-, -, hsegment⟩ := decode_depends_on_address_through_targets [0xEA, 0x00, 0x34, 0x12]
  obtain ⟨-, -, hfixed⟩ := decode_depends_on_address_through_targets [0xCC, 0x00]
  refine ⟨hcongruent _ _ rfl, hmoved 0 7, ?_, ?_, ?_⟩
  · obtain ⟨byte, d, hbyte, hsigned, hoperand⟩ := htarget 0 i hdecode
    exact ⟨i, byte, d, hdecode, hbyte, hsigned, hoperand, hspace 0 i hdecode _ _ (mem_binds_of_operand hoperand)⟩
  · exact (hsegment _ _ rfl hjmpa).2.1 (by decide) _ _ rfl
  · exact (hfixed _ _ rfl hnop).2.2 (by decide) (by decide) _ _

end Lift166
