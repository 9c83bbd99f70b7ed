import Lift166.Encoding.Opcode

/-!
# Decoding

An instruction is decoded from at most four bytes at an address. The first byte finds the row of the opcode
table; the row's layout says which fields are read, and in which order, before the whole length is required. The
order matters for truncated input, where the first field that is missing decides how many bytes are asked for.
-/

namespace Lift166

/-- The instruction of a row with a condition and a mnemonic, once its whole length is known to be there. -/
def OpcodeEntry.special (entry : OpcodeEntry) (w : Window) (mnemonic : String) (cond : Option Condition)
    (binds : List (Slot × Operand)) (display : List Slot) : Except DecodeError Instruction := do
  w.require entry.length
  return { opcode := entry.opcode, mnemonic, family := entry.family, length := entry.length, binds, display,
           flags := entry.flags, cond, operation := entry.operation }

/-- The instruction of a row, once its whole length is known to be there. -/
def OpcodeEntry.instruction (entry : OpcodeEntry) (w : Window) (binds : List (Slot × Operand))
    (display : List Slot) : Except DecodeError Instruction :=
  entry.special w entry.mnemonic none binds display

/-- The instruction of a row with a destination and a source. -/
def OpcodeEntry.binary (entry : OpcodeEntry) (w : Window) (dst src : Operand) :
    Except DecodeError Instruction :=
  entry.instruction w [(.dst, dst), (.src, src)] [.dst, .src]

/-- A register operand from a four-bit field. -/
def Operand.ofNibble (field : Fin 16) (width : Nat) : Operand :=
  .reg (.ofField field.val width) width

/-- A location that the register in a four-bit field points to. -/
def Operand.ofPointer (field : Fin 16) (mode : IndirectMode) (width : Nat) : Operand :=
  .indirect (.wordAt field.val) mode width 0

/-- A location at a distance from what the register in a four-bit field points to. -/
def Operand.ofDisplaced (field : Fin 16) (disp : Fin 65536) (width : Nat) : Operand :=
  .indirect (.wordAt field.val) .disp width disp.val

/-- A field of `n` values as an immediate. -/
def Operand.ofSmall {n : Nat} (value : Fin n) (h : n ≤ 65536) (width : Nat) : Operand :=
  .imm (value.castLE h) width

/-- A number as an immediate. -/
def Operand.ofNat (value width : Nat) : Operand :=
  .imm (Fin.ofNat 65536 value) width

/-- The target of a relative branch of the given length. -/
def relativeTarget (pc displacement : Int) (length : Nat) : Int :=
  wrapAddress (pc + displacement * 2 + length)

/-- The extension that two bits select, where it has a value. -/
def extensionOfSelector (selector : Fin 4) : ExtensionKind :=
  match selector.val with
  | 0 => .exts
  | 1 => .extp
  | 2 => .extsr
  | _ => .extpr

/-- The instruction of a row that extends the ones after it. It takes its mnemonic from what it overrides, and
shows the operands in `values` and then the count. -/
def OpcodeEntry.extension (entry : OpcodeEntry) (w : Window) (ext : Extension)
    (values : List (Slot × Operand)) : Except DecodeError Instruction :=
  entry.special w ext.kind.name none
    ((.ext, .extension ext) :: (values ++ [(.count, .ofNat ext.count.toNat 1)]))
    (values.map Prod.fst ++ [.count])

/-- Reads the operands of a layout. -/
def Layout.decode (layout : Layout) (entry : OpcodeEntry) (w : Window) : Except DecodeError Instruction :=
  let width := entry.width
  match layout with
  | regReg => do
    let dst ← w.nibbleHigh 1
    let src ← w.nibbleLow 1
    entry.binary w (.ofNibble dst width) (.ofNibble src width)
  | regPointer => do
    let dst ← w.nibbleHigh 1
    let selector ← w.pointerSelector
    let index ← w.pointerIndex
    let data ← w.data3
    let src :=
      if selector = 2 then .ofPointer (index.castLE (by decide)) .plain width
      else if selector = 3 then .ofPointer (index.castLE (by decide)) .postInc width
      else .ofSmall data (by decide) width
    entry.binary w (.ofNibble dst width) src
  | shortImm => do
    let value ← if width = 1 then (w.data8).map (Operand.ofSmall · (by decide) width)
      else (w.data16).map (Operand.imm · width)
    let code ← w.short
    entry.binary w (.short code width) value
  | shortWord => do
    let code ← w.short
    let value ← w.data16
    entry.binary w (.short code width) (.imm value width)
  | shortMem => do
    let code ← w.short
    let raw ← w.mem
    entry.binary w (.short code width) (.mem raw width)
  | memShort => do
    let raw ← w.mem
    let code ← w.short
    entry.binary w (.mem raw width) (.short code width)
  | regImm4 => do
    let dst ← w.nibbleLow 1
    let value ← w.data4
    entry.binary w (.ofNibble dst width) (.ofSmall value (by decide) width)
  | regMem => do
    let dst ← w.nibbleLow 1
    let raw ← w.mem
    entry.binary w (.ofNibble dst width) (.mem raw width)
  | regWord => do
    let dst ← w.nibbleLow 1
    let value ← w.data16
    entry.binary w (.ofNibble dst width) (.imm value width)
  | dstReg => do
    let dst ← w.nibbleHigh 1
    entry.instruction w [(.dst, .ofNibble dst width)] [.dst]
  | srcReg => do
    let src ← w.nibbleHigh 1
    entry.instruction w [(.src, .ofNibble src width)] [.src]
  | shiftCount => do
    let dst ← w.nibbleLow 1
    let count ← w.nibbleHigh 1
    entry.binary w (.ofNibble dst width) (.ofSmall count (by decide) 1)
  | bit => do
    let offset ← w.short
    let pos ← w.bitPosition
    entry.instruction w [(.bit, .bit offset.val pos)] [.bit]
  | bitPair => do
    let dstOffset ← w.byte 2
    let dstPos ← w.nibbleLow 3
    let srcOffset ← w.byte 1
    let srcPos ← w.nibbleHigh 3
    entry.binary w (.bit dstOffset.val dstPos) (.bit srcOffset.val srcPos)
  | bitField dataFirst => do
    let first ← w.byte 2
    let second ← w.byte 3
    let offset ← w.short
    let mask := if dataFirst then second else first
    let data := if dataFirst then first else second
    entry.instruction w
      [(.bitoff, .bitWord offset.val), (.mask, .ofSmall mask (by decide) 1), (.data, .ofSmall data (by decide) 1)]
      [.bitoff, .mask, .data]
  | bitJump => do
    let offset ← w.short
    let pos ← w.branchBitPosition
    let displacement ← w.rel8 2
    entry.instruction w
      [(.bit, .bit offset.val pos), (.target, .target (relativeTarget w.pc displacement 4))] [.bit, .target]
  | conditionalRelative => do
    let cond ← w.nibbleHigh 0
    let displacement ← w.rel8 1
    entry.special w entry.mnemonic (some (.ofNibble cond))
      [(.target, .target (relativeTarget w.pc displacement 2))] [.cond, .target]
  | absolute => do
    let cond ← w.nibbleHigh 1
    let offset ← w.caddr
    entry.special w entry.mnemonic (some (.ofNibble cond))
      [(.target, .target ((segmentBase w.pc + offset.val : Nat) : Int))] [.cond, .target]
  | segmented => do
    let segment ← w.byte 1
    let offset ← w.caddr
    entry.instruction w
      [(.seg, .ofSmall segment (by decide) 1), (.target, .target ((segment.val * 0x10000 + offset.val : Nat) : Int))]
      [.seg, .target]
  | pointerBranch => do
    let field ← w.nibbleHigh 1
    let base ← w.nibbleLow 1
    match Condition.ofNibble field with
    | .uc => entry.special w entry.mnemonic (some .uc) [(.base, .ofPointer base .plain 2)] [.cond, .base]
    | cond => throw (.unsupported entry.mnemonic w.pc (.conditionalIndirect cond))
  | relative => do
    let displacement ← w.rel8 1
    entry.instruction w [(.target, .target (relativeTarget w.pc displacement 2))] [.target]
  | pushAndCall => do
    w.require entry.length
    throw (.unsupported entry.mnemonic w.pc .pushAndCall)
  | plain => entry.instruction w [] []
  | short => do
    let code ← w.short
    entry.instruction w [(.reg, .short code width)] [.reg]
  | trap => do
    let number ← w.trap7
    entry.instruction w
      [(.trap, .ofSmall number (by decide) 1), (.target, .target ((segmentBase w.pc + number.val * 4 : Nat) : Int))]
      [.trap]
  | protectedOpcode => do
    let inverted ← w.byte 1
    let second ← w.byte 2
    let third ← w.byte 3
    if inverted.val = 255 - entry.opcode ∧ second.val = entry.opcode ∧ third.val = entry.opcode then
      entry.instruction w [] []
    else throw (.unsupported entry.mnemonic w.pc .malformedProtection)
  | load mode => do
    let dst ← w.nibbleHigh 1
    let src ← w.nibbleLow 1
    entry.binary w (.ofNibble dst width) (.ofPointer src mode width)
  | save mode => do
    let dst ← w.nibbleLow 1
    let src ← w.nibbleHigh 1
    entry.binary w (.ofPointer dst mode width) (.ofNibble src width)
  | transfer dstMode srcMode => do
    let dst ← w.nibbleHigh 1
    let src ← w.nibbleLow 1
    entry.binary w (.ofPointer dst dstMode width) (.ofPointer src srcMode width)
  | loadDisp => do
    let dst ← w.nibbleHigh 1
    let src ← w.nibbleLow 1
    let disp ← w.data16
    entry.binary w (.ofNibble dst width) (.ofDisplaced src disp width)
  | saveDisp => do
    let dst ← w.nibbleLow 1
    let disp ← w.data16
    let src ← w.nibbleHigh 1
    entry.binary w (.ofDisplaced dst disp width) (.ofNibble src width)
  | pointerMem => do
    let dst ← w.nibbleLow 1
    let raw ← w.mem
    entry.binary w (.ofPointer dst .plain width) (.mem raw width)
  | memPointer => do
    let raw ← w.mem
    let src ← w.nibbleLow 1
    entry.binary w (.mem raw width) (.ofPointer src .plain width)
  | wordByte => do
    let dst ← w.nibbleLow 1
    let src ← w.nibbleHigh 1
    entry.binary w (.ofNibble dst 2) (.ofNibble src 1)
  | shortMemByte => do
    let code ← w.short
    let raw ← w.mem
    entry.binary w (.short code 2) (.mem raw 1)
  | memShortByte => do
    let raw ← w.mem
    let code ← w.short
    entry.binary w (.mem raw 2) (.short code 1)
  | extensionShort => do
    let selector ← w.extensionSelector
    let count ← w.extensionCount
    match selector.val with
    | 0 => entry.extension w ⟨.atomic, count, none, none⟩ []
    | 2 => entry.extension w ⟨.extr, count, none, none⟩ []
    | reserved => throw (.unsupported "atomic/extr" w.pc (.reservedSubOperation reserved))
  | extensionImmediate => do
    let selector ← w.extensionSelector
    let kind := extensionOfSelector selector
    let low ← w.byte 2
    let value ← if kind.hasSegment then pure (low.val : Nat)
      else (w.byte 3).map fun high => low.val + 256 * (high.val % 4)
    let count ← w.extensionCount
    entry.extension w ⟨kind, count, some value, none⟩ [(.value, .ofNat value 2)]
  | extensionRegister => do
    let selector ← w.extensionSelector
    let kind := extensionOfSelector selector
    let field ← w.nibbleLow 1
    let count ← w.extensionCount
    entry.extension w ⟨kind, count, none, some (.wordAt field.val)⟩ [(.reg, .reg (.wordAt field.val) 2)]

/-- Decodes the instruction at an address. -/
def decode (bytes : List UInt8) (addr : Int) : Except DecodeError Instruction := do
  let w : Window := ⟨addr, bytes.take 4⟩
  let opcode ← w.opcode
  match opcodeEntry? opcode.val with
  | some entry => entry.layout.decode entry w
  | none => throw (.unknownOpcode opcode.val (some addr))

end Lift166
