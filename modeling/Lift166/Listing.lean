import Lift166.Instruction
import Lift166.Place

/-!
# Listings

An instruction as a line of tokens. Operands show where they are: the text of a line depends on the override in
force at its address, and building it changes nothing.
-/

namespace Lift166

/-- A piece of a line. -/
inductive Token
  /-- The mnemonic. -/
  | mnemonic (text : String)
  /-- What stands between operands. -/
  | separator (text : String)
  /-- Plain text. -/
  | text (text : String)
  /-- A number. -/
  | number (text : String)
  /-- A register. -/
  | register (name : String)
  /-- An address. -/
  | address (value : Int)
  /-- The start of a memory operand. -/
  | beginMemory
  /-- The end of a memory operand. -/
  | endMemory
deriving DecidableEq

namespace Token

/-- A token as it is shown. Addresses have at least five digits. -/
def shown : Token → String
  | mnemonic t | separator t | text t | number t | register t => t
  | address value => upperHexPadded 5 value
  | beginMemory => "["
  | endMemory => "]"

/-- The class of a token. -/
def className : Token → String
  | mnemonic _ => "TInstr"
  | separator _ => "TSep"
  | text _ => "TText"
  | number _ => "TInt"
  | register _ => "TReg"
  | address _ => "TAddr"
  | beginMemory => "TBegMem"
  | endMemory => "TEndMem"

/-- A host's word for the class of a token. -/
def hostType : Token → String
  | mnemonic _ => "InstructionToken"
  | separator _ => "OperandSeparatorToken"
  | text _ => "TextToken"
  | number _ => "IntegerToken"
  | register _ => "RegisterToken"
  | address _ => "PossibleAddressToken"
  | beginMemory => "BeginMemoryOperandToken"
  | endMemory => "EndMemoryOperandToken"

end Token

/-- A line as text. -/
def lineText (tokens : List Token) : String :=
  String.join (tokens.map Token.shown)

/-- Operands start in this column, or one blank after a longer mnemonic. -/
def operandColumn : Nat := 7

/-- A number in hexadecimal. -/
def Token.hex (value : Int) : Token :=
  .number (Lift166.hex value)

/-- A physical address: by the name of its special function register, if it has one. -/
def addressToken (address : Int) : Token :=
  match specialName? address with
  | some name => .register name
  | none => .address address

/-- A place. -/
def Place.token : Place → Token
  | gpr r => .register r.name
  | sfr address => addressToken address

/-- A location that a register points to. -/
def pointerTokens (base : Register) (mode : IndirectMode) (disp : Int) : List Token :=
  let register := Token.register base.name
  let inside :=
    match mode with
    | .preDec => [.separator "-", register]
    | .postInc => [register, .separator "+"]
    | .disp => [register, .separator "+", .text "#", .hex disp]
    | _ => [register]
  .beginMemory :: (inside ++ [.endMemory])

/-- An operand of the instruction at an address, as the slot shows it. Segments are bare numbers. -/
def operandTokens (s : Store) (addr : Int) (slot : Slot) : Operand → Except InstructionError (List Token)
  | .reg r _ => .ok [.register r.name]
  | .short code width => .ok [(Place.ofShort s addr code.val width).token]
  | .imm value _ => .ok (if slot = .seg then [.hex value.val] else [.text "#", .hex value.val])
  | .mem raw _ => .ok [addressToken ((s.regime addr).physical raw)]
  | .indirect base mode _ disp => .ok (pointerTokens base mode disp)
  | .bit offset pos => .ok [(Place.ofBitOffset s addr offset).token, .text ".", .number (decimal pos.val)]
  | .bitWord offset => .ok [(Place.ofBitOffset s addr offset).token]
  | .target address => .ok [.address address]
  | op => .error (.unlistable slot op)

/-- What a slot of an instruction shows. -/
def slotTokens (s : Store) (addr : Int) (i : Instruction) (slot : Slot) :
    Except InstructionError (List Token) :=
  match slot with
  | .cond =>
    match i.cond with
    | some cond => .ok [.text cond.text]
    | none => .error .mismatch
  | slot => do operandTokens s addr slot (← i.operand slot)

/-- Tokens of operands with separators between them. -/
def separated : List (List Token) → List Token
  | [] => []
  | [operand] => operand
  | operand :: rest => operand ++ .separator ", " :: separated rest

/-- The line of the instruction at an address. -/
def render (s : Store) (i : Instruction) (addr : Int) : Except InstructionError (List Token) := do
  let operands ← i.display.mapM (slotTokens s addr i)
  let gap := String.ofList (List.replicate (max 1 (operandColumn - i.mnemonic.length)) ' ')
  return .mnemonic i.mnemonic :: (if operands.isEmpty then [] else .separator gap :: separated operands)

end Lift166
