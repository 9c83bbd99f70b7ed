import Lift166.Machine.Register
import Lift166.Text.Quoted

/-!
# Operands

What an instruction names: a register, a short register address, an immediate, a memory word, a register-indirect
location, a bit, a branch target, or the arguments of an extension instruction. Fields that the encoding bounds
carry that bound in their type; building such an operand from an integer outside it is refused.
-/

namespace Lift166

/-- How a register-indirect operand steps its base. -/
inductive IndirectMode
  /-- The base as it is. -/
  | plain
  /-- The base is stepped up after the access. -/
  | postInc
  /-- The base is stepped down before the access. -/
  | preDec
  /-- The base plus a displacement. -/
  | disp
  /-- A mode known by name only; the base is used as it is. -/
  | named (name : String)
deriving DecidableEq

/-- The name of a mode. -/
def IndirectMode.name : IndirectMode → String
  | plain => "plain"
  | postInc => "post_inc"
  | preDec => "pre_dec"
  | disp => "disp"
  | named name => name

/-- The mode of a name. -/
def IndirectMode.ofName : String → IndirectMode
  | "plain" => plain
  | "post_inc" => postInc
  | "pre_dec" => preDec
  | "disp" => disp
  | name => named name

/-- What an extension instruction overrides. -/
inductive ExtensionKind
  /-- Nothing but interruption: the next instructions run as one. -/
  | atomic
  /-- The register bank of short addresses. -/
  | extr
  /-- The segment. -/
  | exts
  /-- The page. -/
  | extp
  /-- The segment and the register bank. -/
  | extsr
  /-- The page and the register bank. -/
  | extpr
  /-- A kind known by name only; it overrides nothing. -/
  | named (name : String)
deriving DecidableEq

namespace ExtensionKind

/-- The mnemonic of a kind. -/
def name : ExtensionKind → String
  | atomic => "atomic"
  | extr => "extr"
  | exts => "exts"
  | extp => "extp"
  | extsr => "extsr"
  | extpr => "extpr"
  | named name => name

/-- The kind of a mnemonic. -/
def ofName : String → ExtensionKind
  | "atomic" => atomic
  | "extr" => extr
  | "exts" => exts
  | "extp" => extp
  | "extsr" => extsr
  | "extpr" => extpr
  | name => named name

/-- Whether the kind overrides the segment. -/
def hasSegment : ExtensionKind → Bool
  | exts | extsr => true
  | _ => false

/-- Whether the kind overrides the page. -/
def hasPage : ExtensionKind → Bool
  | extp | extpr => true
  | _ => false

/-- Whether the kind overrides the register bank. -/
def hasRegisterBank : ExtensionKind → Bool
  | extr | extsr | extpr => true
  | _ => false

end ExtensionKind

/-- The arguments of an extension instruction. -/
structure Extension where
  /-- What is overridden. -/
  kind : ExtensionKind
  /-- For how many instructions. -/
  count : Int
  /-- The page or segment, where it is an immediate. -/
  value : Option Int
  /-- The register that holds the page or segment, where one does. -/
  register : Option Register
deriving DecidableEq

/-- An operand of an instruction. -/
inductive Operand
  /-- A register named by a four-bit field. -/
  | reg (register : Register) (width : Nat)
  /-- A short register address: a general purpose register or a special function register. -/
  | short (code : Fin 256) (width : Nat)
  /-- An immediate. -/
  | imm (value : Fin 65536) (width : Nat)
  /-- A memory word by its sixteen low address bits. -/
  | mem (raw : Fin 65536) (width : Nat)
  /-- A location that a register points to. -/
  | indirect (base : Register) (mode : IndirectMode) (width : Nat) (disp : Int)
  /-- A bit of a bit-addressable word. -/
  | bit (offset : Int) (pos : Fin 16)
  /-- A bit-addressable word. -/
  | bitWord (offset : Int)
  /-- The target of a branch. -/
  | target (address : Int)
  /-- The arguments of an extension instruction. -/
  | extension (ext : Extension)
deriving DecidableEq

/-- Why an integer does not fit an operand's field. -/
inductive OperandError
  /-- A short register address takes eight bits. -/
  | shortRange (code : Int)
  /-- An immediate takes sixteen bits. -/
  | immRange (value : Int)
  /-- A memory operand takes sixteen bits. -/
  | memRange (raw : Int)
  /-- A bit position takes four bits. -/
  | bitRange (pos : Int)
deriving DecidableEq

/-- The wording of an operand error. -/
def OperandError.message : OperandError → String
  | shortRange code => "RegShort out of range: " ++ hex code
  | immRange value => "Imm out of range: " ++ hex value
  | memRange raw => "Mem out of range: " ++ hex raw
  | bitRange pos => "Bit position out of range: " ++ decimal pos

/-- An integer as a member of a finite range, or the given error. -/
def inRange {ε : Type} (n : Nat) (x : Int) (error : ε) : Except ε (Fin n) :=
  if h : 0 ≤ x ∧ x < n then .ok ⟨x.toNat, by omega⟩ else .error error

namespace Operand

/-- A short register address from an integer. -/
def ofShort (code : Int) (width : Nat) : Except OperandError Operand :=
  (inRange 256 code (.shortRange code)).map (short · width)

/-- An immediate from an integer. -/
def ofImm (value : Int) (width : Nat) : Except OperandError Operand :=
  (inRange 65536 value (.immRange value)).map (imm · width)

/-- A memory operand from an integer. -/
def ofMem (raw : Int) (width : Nat) : Except OperandError Operand :=
  (inRange 65536 raw (.memRange raw)).map (mem · width)

/-- A bit from an offset and an integer position. -/
def ofBit (offset pos : Int) : Except OperandError Operand :=
  (inRange 16 pos (.bitRange pos)).map (bit offset ·)

/-- The width in bytes, for the operands that have one. -/
def width? : Operand → Option Nat
  | reg _ w | short _ w | imm _ w | mem _ w | indirect _ _ w _ => some w
  | bit .. | bitWord _ | target _ | extension _ => none

/-- The data page pointer that a memory operand's upper two bits select. -/
def dppSlot (raw : Fin 65536) : Nat :=
  raw.val / 0x4000

end Operand

/-- One field in the description of a value. -/
def describeField (label value : String) : String :=
  label ++ "=" ++ value

/-- A value with its fields, as messages and traces show it. -/
def describeWith (head : String) (fields : List String) : String :=
  head ++ "(" ++ ", ".intercalate fields ++ ")"

/-- An optional value in a description. -/
def describeOption : Option String → String
  | some text => text
  | none => "None"

/-- The width field of an operand's description. -/
def describeWidth (width : Nat) : String :=
  describeField "width" (decimal width)

/-- An operand with all its fields, as messages and traces show it. -/
def Operand.describe : Operand → String
  | reg r w => describeWith "Reg" [describeField "name" (quoted r.name), describeWidth w]
  | short code w => describeWith "RegShort" [describeField "code" (decimal code.val), describeWidth w]
  | imm value w => describeWith "Imm" [describeField "value" (decimal value.val), describeWidth w]
  | mem raw w => describeWith "Mem" [describeField "raw" (decimal raw.val), describeWidth w]
  | indirect base mode w disp =>
    describeWith "Indirect" [describeField "base" (quoted base.name), describeField "mode" (quoted mode.name),
      describeWidth w, describeField "disp" (decimal disp)]
  | bit offset pos =>
    describeWith "BitRef" [describeField "bitoff" (decimal offset), describeField "pos" (decimal pos.val)]
  | bitWord offset => describeWith "BitWord" [describeField "bitoff" (decimal offset)]
  | target address => describeWith "Target" [describeField "address" (decimal address)]
  | extension ext =>
    describeWith "ExtOverride" [describeField "kind" (quoted ext.kind.name),
      describeField "count" (decimal ext.count),
      describeField "value" (describeOption (ext.value.map decimal)),
      describeField "reg" (describeOption (ext.register.map fun r => quoted r.name))]

end Lift166
