import Lift166.Machine.Condition
import Lift166.Number.Bits
import Lift166.Number.Text

/-!
# The bytes of one instruction

Operands are packed into nibbles and bytes at fixed places, so a window gives random access to the bytes from an
address on. Asking for a byte that is not there is an error that says how many bytes were needed and how many
there are; the fields are named as the instruction set manual names them.
-/

namespace Lift166

/-- Why a recognised instruction is not decoded. -/
inductive Unsupported
  /-- An indirect branch with a condition. -/
  | conditionalIndirect (cond : Condition)
  /-- The combined push and call. -/
  | pushAndCall
  /-- A protected instruction whose bytes do not repeat the opcode as they must. -/
  | malformedProtection
  /-- A short extension instruction with a reserved selector. -/
  | reservedSubOperation (number : Nat)
deriving DecidableEq

/-- The wording of the reason. -/
def Unsupported.reason : Unsupported → String
  | conditionalIndirect cond => "conditional indirect branch (" ++ cond.text ++ ")"
  | pushAndCall => "pcall is not modelled"
  | malformedProtection => "malformed protected instruction encoding"
  | reservedSubOperation number => "reserved sub-operation " ++ decimal number

/-- Why bytes do not decode to an instruction. -/
inductive DecodeError
  /-- There are fewer bytes than were asked for. -/
  | tooShort (need available : Nat)
  /-- The first byte is no opcode. -/
  | unknownOpcode (opcode : Int) (addr : Option Int)
  /-- The opcode is known but this form of it is not decoded. -/
  | unsupported (mnemonic : String) (addr : Int) (cause : Unsupported)
deriving DecidableEq

/-- The wording of a decode error. -/
def DecodeError.message : DecodeError → String
  | tooShort need available => "Insufficient bytes: need " ++ decimal need ++ ", have " ++ decimal available
  | unknownOpcode opcode none => "Unknown opcode " ++ hexPadded 4 opcode
  | unknownOpcode opcode (some addr) => "Unknown opcode " ++ hexPadded 4 opcode ++ " at " ++ hex addr
  | unsupported mnemonic addr cause => "Unsupported " ++ mnemonic ++ " at " ++ hex addr ++ ": " ++ cause.reason

/-- The bytes from an address on. -/
structure Window where
  /-- The address of the first byte. -/
  pc : Int
  /-- The bytes at hand. -/
  bytes : List UInt8
deriving DecidableEq

namespace Window

/-- Checks that `count` bytes are there. -/
def require (w : Window) (count : Nat) : Except DecodeError Unit :=
  if count ≤ w.bytes.length then .ok () else .error (.tooShort count w.bytes.length)

/-- The byte at an index. -/
def byte (w : Window) (index : Nat) : Except DecodeError (Fin 256) :=
  match w.bytes[index]? with
  | some b => .ok b.toFin
  | none => .error (.tooShort (index + 1) w.bytes.length)

/-- The little-endian word at an index. -/
def word (w : Window) (index : Nat) : Except DecodeError (Fin 65536) :=
  match w.bytes[index]?, w.bytes[index + 1]? with
  | some lo, some hi => .ok ⟨lo.toNat + 256 * hi.toNat, by have := lo.toNat_lt; have := hi.toNat_lt; omega⟩
  | _, _ => .error (.tooShort (index + 2) w.bytes.length)

/-- The high nibble of a byte. -/
def nibbleHigh (w : Window) (index : Nat) : Except DecodeError (Fin 16) :=
  (w.byte index).map fun b => ⟨b.val / 16, by omega⟩

/-- The low nibble of a byte. -/
def nibbleLow (w : Window) (index : Nat) : Except DecodeError (Fin 16) :=
  (w.byte index).map fun b => ⟨b.val % 16, by omega⟩

/-- The first byte. -/
def opcode (w : Window) : Except DecodeError (Fin 256) :=
  w.byte 0

/-- A short register address. -/
def short (w : Window) : Except DecodeError (Fin 256) :=
  w.byte 1

/-- The sixteen low bits of a memory address. -/
def mem (w : Window) : Except DecodeError (Fin 65536) :=
  w.word 2

/-- A sixteen-bit immediate. -/
def data16 (w : Window) : Except DecodeError (Fin 65536) :=
  w.word 2

/-- A code address within a segment. -/
def caddr (w : Window) : Except DecodeError (Fin 65536) :=
  w.word 2

/-- An eight-bit immediate. -/
def data8 (w : Window) : Except DecodeError (Fin 256) :=
  w.byte 2

/-- A four-bit immediate. -/
def data4 (w : Window) : Except DecodeError (Fin 16) :=
  w.nibbleHigh 1

/-- A three-bit immediate. -/
def data3 (w : Window) : Except DecodeError (Fin 8) :=
  (w.byte 1).map fun b => ⟨b.val % 8, by omega⟩

/-- The pointer register, one of the first four. -/
def pointerIndex (w : Window) : Except DecodeError (Fin 4) :=
  (w.byte 1).map fun b => ⟨b.val % 4, by omega⟩

/-- The two bits that tell a pointer from a three-bit immediate. -/
def pointerSelector (w : Window) : Except DecodeError (Fin 4) :=
  (w.byte 1).map fun b => ⟨b.val / 4 % 4, by omega⟩

/-- The bit number that is part of the opcode. -/
def bitPosition (w : Window) : Except DecodeError (Fin 16) :=
  w.nibbleHigh 0

/-- The bit number of a jump on a bit. -/
def branchBitPosition (w : Window) : Except DecodeError (Fin 16) :=
  w.nibbleHigh 3

/-- A signed byte. -/
def rel8 (w : Window) (index : Nat) : Except DecodeError Int :=
  (w.byte index).map fun b => signExtend 8 b.val

/-- The number of instructions that an extension covers, from one to four. -/
def extensionCount (w : Window) : Except DecodeError Nat :=
  (w.byte 1).map fun b => b.val / 16 % 4 + 1

/-- The two bits that select the extension. -/
def extensionSelector (w : Window) : Except DecodeError (Fin 4) :=
  (w.byte 1).map fun b => ⟨b.val / 64, by omega⟩

/-- The number of a trap. -/
def trap7 (w : Window) : Except DecodeError (Fin 128) :=
  (w.byte 1).map fun b => ⟨b.val / 2, by omega⟩

end Window

end Lift166
