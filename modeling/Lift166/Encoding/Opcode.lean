import Lift166.Encoding.Window
import Lift166.Instruction

/-!
# The opcode table

Every opcode with its mnemonic, family, length, operand layout, operation and operand width. The table is data:
the rows that differ only in a nibble are generated from the rule that the instruction set follows there.
-/

namespace Lift166

/-- Where an encoding keeps its operands. -/
inductive Layout
  /-- Two registers in byte 1. -/
  | regReg
  /-- A register, and a pointer, a stepped pointer or a three-bit immediate. -/
  | regPointer
  /-- A short address and an immediate; the immediate is read first. -/
  | shortImm
  /-- A short address and a word; the address is read first. -/
  | shortWord
  /-- A short address and a memory word. -/
  | shortMem
  /-- A memory word and a short address; the memory word is read first. -/
  | memShort
  /-- A register in the low nibble and a four-bit immediate. -/
  | regImm4
  /-- A register in the low nibble and a memory word. -/
  | regMem
  /-- A register in the low nibble and a word. -/
  | regWord
  /-- A register in the high nibble, as the destination. -/
  | dstReg
  /-- A register in the high nibble, as the source. -/
  | srcReg
  /-- A register in the low nibble and a four-bit shift count. -/
  | shiftCount
  /-- A bit whose position is in the opcode. -/
  | bit
  /-- Two bits. -/
  | bitPair
  /-- A bit-addressable word, mask and data; with `dataFirst` the data byte precedes the mask byte. -/
  | bitField (dataFirst : Bool)
  /-- A bit and a relative target. -/
  | bitJump
  /-- A relative target, with the condition in the opcode. -/
  | conditionalRelative
  /-- A condition and a target within the segment. -/
  | absolute
  /-- A segment and a target within it. -/
  | segmented
  /-- A condition, which must be the trivial one, and a pointer. -/
  | pointerBranch
  /-- A relative target. -/
  | relative
  /-- The combined push and call, which is not decoded. -/
  | pushAndCall
  /-- No operands. -/
  | plain
  /-- A short address. -/
  | short
  /-- A trap number. -/
  | trap
  /-- No operands, and three bytes that repeat the opcode. -/
  | protectedOpcode
  /-- A register and a location it is loaded from. -/
  | load (mode : IndirectMode)
  /-- A location and a register that is stored there. -/
  | save (mode : IndirectMode)
  /-- Two locations. -/
  | transfer (dstMode srcMode : IndirectMode)
  /-- A register and a displaced location. -/
  | loadDisp
  /-- A displaced location and a register. -/
  | saveDisp
  /-- A location and a memory word. -/
  | pointerMem
  /-- A memory word and a location; the memory word is read first. -/
  | memPointer
  /-- A word register and a byte register. -/
  | wordByte
  /-- A short word address and a memory byte. -/
  | shortMemByte
  /-- A memory word and a short byte address; the memory word is read first. -/
  | memShortByte
  /-- A short extension. -/
  | extensionShort
  /-- An extension with its value. -/
  | extensionImmediate
  /-- An extension with its value in a register. -/
  | extensionRegister
deriving DecidableEq

/-- A row of the opcode table. -/
structure OpcodeEntry where
  /-- The first byte. -/
  opcode : Nat
  /-- The mnemonic. -/
  mnemonic : String
  /-- The family. -/
  family : Family
  /-- The length in bytes. -/
  length : Nat
  /-- Where the operands are. -/
  layout : Layout
  /-- The member of the family. -/
  operation : Option Operation
  /-- The operand width in bytes, where there is a word and a byte form. -/
  width : Nat := 2
deriving DecidableEq

namespace OpcodeEntry

/-- A row with the length that is usual in its family. -/
def usual (opcode : Nat) (mnemonic : String) (family : Family) (layout : Layout)
    (operation : Option Operation) : OpcodeEntry :=
  { opcode, mnemonic, family, length := family.defaultLength, layout, operation }

/-- The flags that the instruction writes. -/
def flags (entry : OpcodeEntry) : Option FlagPolicy :=
  entry.family.flags

end OpcodeEntry

/-- The two-operand operations with the high nibble of their opcodes. -/
def aluRows : List (Nat × String × String × AluOp) :=
  [(0x00, "add", "addb", .add), (0x10, "addc", "addcb", .addc), (0x20, "sub", "subb", .sub),
    (0x30, "subc", "subcb", .subc), (0x40, "cmp", "cmpb", .cmp), (0x50, "xor", "xorb", .xor),
    (0x60, "and", "andb", .and), (0x70, "or", "orb", .or)]

/-- The rows of one two-operand operation in one width. Comparing has no form that stores. -/
def aluForms (opcode : Nat) (mnemonic : String) (op : AluOp) (width : Nat) : List OpcodeEntry :=
  let row := fun (offset length : Nat) (layout : Layout) =>
    { opcode := opcode + offset, mnemonic, family := .alu, length, layout, operation := some (.alu op), width }
  [row 0x0 2 .regReg, row 0x8 2 .regPointer, row 0x6 4 .shortImm, row 0x2 4 .shortMem]
    ++ (if op = .cmp then [] else [row 0x4 4 .memShort])

/-- The two-operand operations. -/
def aluEntries : List OpcodeEntry :=
  aluRows.flatMap fun (opcode, wordName, byteName, op) =>
    aluForms opcode wordName op 2 ++ aluForms (opcode + 1) byteName op 1

/-- Comparing and stepping the register afterwards. -/
def cmpStepEntries : List OpcodeEntry :=
  [(0x80, "cmpi1", 1), (0x90, "cmpi2", 2), (0xA0, "cmpd1", -1), (0xB0, "cmpd2", -2)].flatMap
    fun (opcode, mnemonic, amount) =>
      let row := fun (offset length : Nat) (layout : Layout) =>
        { opcode := opcode + offset, mnemonic, family := .cmpStep, length, layout,
          operation := some (.step amount) }
      [row 0x0 2 .regImm4, row 0x2 4 .regMem, row 0x6 4 .regWord]

/-- One-operand arithmetic, multiplication and division. -/
def arithmeticEntries : List OpcodeEntry :=
  [.usual 0x81 "neg" .unary .dstReg (some .neg),
    { OpcodeEntry.usual 0xA1 "negb" .unary .dstReg (some .neg) with width := 1 },
    .usual 0x91 "cpl" .unary .dstReg (some .cpl),
    { OpcodeEntry.usual 0xB1 "cplb" .unary .dstReg (some .cpl) with width := 1 },
    .usual 0x0B "mul" .mul .regReg (some .signed),
    .usual 0x1B "mulu" .mul .regReg (some .unsigned),
    .usual 0x4B "div" .div .srcReg (some (.div .div)),
    .usual 0x5B "divu" .div .srcReg (some (.div .divu)),
    .usual 0x6B "divl" .div .srcReg (some (.div .divl)),
    .usual 0x7B "divlu" .div .srcReg (some (.div .divlu)),
    .usual 0x2B "prior" .prior .regReg none]

/-- Shifts and rotations, by a register and by a count. -/
def shiftEntries : List OpcodeEntry :=
  [(0x0C, "rol", ShiftKind.rol), (0x2C, "ror", .ror), (0x4C, "shl", .shl), (0x6C, "shr", .shr),
    (0xAC, "ashr", .ashr)].flatMap fun (opcode, mnemonic, kind) =>
      [.usual opcode mnemonic .shift .regReg (some (.shift kind)),
        .usual (opcode + 0x10) mnemonic .shift .shiftCount (some (.shift kind))]

/-- Bit instructions. The position of a single bit is the high nibble of the opcode. -/
def bitEntries : List OpcodeEntry :=
  ((List.range 16).flatMap fun pos =>
    [.usual (16 * pos + 0xE) "bclr" .bit .bit (some .clear), .usual (16 * pos + 0xF) "bset" .bit .bit (some .set)])
  ++ [.usual 0x2A "bcmp" .bitLogic .bitPair (some (.bitLogic .bcmp)),
    .usual 0x3A "bmovn" .bitLogic .bitPair (some (.bitLogic .bmovn)),
    .usual 0x4A "bmov" .bitLogic .bitPair (some (.bitLogic .bmov)),
    .usual 0x5A "bor" .bitLogic .bitPair (some (.bitLogic .bor)),
    .usual 0x6A "band" .bitLogic .bitPair (some (.bitLogic .band)),
    .usual 0x7A "bxor" .bitLogic .bitPair (some (.bitLogic .bxor)),
    .usual 0x0A "bfldl" .bitField (.bitField false) none,
    .usual 0x1A "bfldh" .bitField (.bitField true) none,
    .usual 0x8A "jb" .bitJump .bitJump (some (.bitJump .jb)),
    .usual 0x9A "jnb" .bitJump .bitJump (some (.bitJump .jnb)),
    .usual 0xAA "jbc" .bitJump .bitJump (some (.bitJump .jbc)),
    .usual 0xBA "jnbs" .bitJump .bitJump (some (.bitJump .jnbs))]

/-- Jumps, calls, returns and traps. The condition of a relative jump is the high nibble of the opcode. -/
def transferEntries : List OpcodeEntry :=
  ((List.range 16).map fun cond =>
    .usual (16 * cond + 0xD) "jmpr" .jump .conditionalRelative (some (.transfer .relative)))
  ++ [{ OpcodeEntry.usual 0xEA "jmpa" .jump .absolute (some (.transfer .absolute)) with length := 4 },
    { OpcodeEntry.usual 0xFA "jmps" .jump .segmented (some (.transfer .segmented)) with length := 4 },
    .usual 0x9C "jmpi" .jump .pointerBranch (some (.transfer .indirect)),
    { OpcodeEntry.usual 0xBB "callr" .call .relative (some (.transfer .relative)) with length := 2 },
    .usual 0xCA "calla" .call .absolute (some (.transfer .absolute)),
    .usual 0xDA "calls" .call .segmented (some (.transfer .segmented)),
    { OpcodeEntry.usual 0xAB "calli" .call .pointerBranch (some (.transfer .indirect)) with length := 2 },
    .usual 0xE2 "pcall" .call .pushAndCall none,
    .usual 0xCB "ret" .ret .plain (some (.ret .ret)),
    .usual 0xDB "rets" .ret .plain (some (.ret .rets)),
    .usual 0xEB "retp" .ret .short (some (.ret .retp)),
    .usual 0xFB "reti" .ret .plain (some (.ret .reti)),
    .usual 0x9B "trap" .trap .trap none]

/-- Stack and system instructions, and the extensions. -/
def systemEntries : List OpcodeEntry :=
  [.usual 0xEC "push" .stack .short (some .push),
    .usual 0xFC "pop" .stack .short (some .pop),
    .usual 0xC6 "scxt" .scxt .shortWord none,
    .usual 0xD6 "scxt" .scxt .shortMem none,
    .usual 0xCC "nop" .nop .plain none,
    .usual 0xB7 "srst" .system .protectedOpcode none,
    .usual 0x87 "idle" .system .protectedOpcode none,
    .usual 0x97 "pwrdn" .system .protectedOpcode (some .noreturn),
    .usual 0xA7 "srvwdt" .system .protectedOpcode none,
    .usual 0xA5 "diswdt" .system .protectedOpcode none,
    .usual 0xB5 "einit" .system .protectedOpcode none,
    .usual 0xD1 "atomic" .ext .extensionShort none,
    { OpcodeEntry.usual 0xD7 "extp" .ext .extensionImmediate none with length := 4 },
    .usual 0xDC "extp" .ext .extensionRegister none]

/-- The word and byte opcodes of the moves, with length and layout. -/
def moveRows : List (Nat × Nat × Nat × Layout) :=
  [(0xF0, 0xF1, 2, .regReg), (0xE0, 0xE1, 2, .regImm4), (0xE6, 0xE7, 4, .shortImm),
    (0xA8, 0xA9, 2, .load .plain), (0x98, 0x99, 2, .load .postInc),
    (0xB8, 0xB9, 2, .save .plain), (0x88, 0x89, 2, .save .preDec),
    (0xC8, 0xC9, 2, .transfer .plain .plain), (0xD8, 0xD9, 2, .transfer .postInc .plain),
    (0xE8, 0xE9, 2, .transfer .plain .postInc),
    (0xD4, 0xF4, 4, .loadDisp), (0xC4, 0xE4, 4, .saveDisp),
    (0x84, 0xA4, 4, .pointerMem), (0x94, 0xB4, 4, .memPointer),
    (0xF2, 0xF3, 4, .shortMem), (0xF6, 0xF7, 4, .memShort)]

/-- The moves, plain and extending. -/
def moveEntries : List OpcodeEntry :=
  (moveRows.flatMap fun (wordOpcode, byteOpcode, length, layout) =>
    [{ opcode := wordOpcode, mnemonic := "mov", family := .move, length, layout, operation := none },
      { opcode := byteOpcode, mnemonic := "movb", family := .move, length, layout, operation := none,
        width := 1 }])
  ++ [(0xD0, "movbs", Operation.sx), (0xC0, "movbz", .zx)].flatMap fun (opcode, mnemonic, extend) =>
    let row := fun (offset length : Nat) (layout : Layout) =>
      { opcode := opcode + offset, mnemonic, family := .moveExt, length, layout, operation := some extend }
    [row 0x0 2 .wordByte, row 0x2 4 .shortMemByte, row 0x5 4 .memShortByte]

/-- The whole table. -/
def opcodeTable : List OpcodeEntry :=
  aluEntries ++ cmpStepEntries ++ arithmeticEntries ++ shiftEntries ++ bitEntries ++ transferEntries
    ++ systemEntries ++ moveEntries

/-- The row of an opcode. -/
def opcodeEntry? (opcode : Nat) : Option OpcodeEntry :=
  opcodeTable.find? fun entry => entry.opcode == opcode

/-- The rows by ascending opcode. -/
def opcodeListing : List OpcodeEntry :=
  (List.range 256).filterMap opcodeEntry?

/-- The length that the table gives for an opcode. -/
def instructionLength (opcode : Int) : Except DecodeError Nat :=
  match if 0 ≤ opcode then opcodeEntry? opcode.toNat else none with
  | some entry => .ok entry.length
  | none => .error (.unknownOpcode opcode none)

end Lift166
