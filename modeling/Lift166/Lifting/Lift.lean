import Lift166.Journal
import Lift166.Lifting.Arithmetic
import Lift166.Lifting.Bit
import Lift166.Lifting.Move
import Lift166.Lifting.Transfer

/-!
# Lifting

An instruction is lifted by its family. An extension instruction places its override at the next address; every
other instruction carries a running override from its own address to the next one, after its lifted form has been
built from the store as it was.
-/

namespace Lift166

open Il

/-- Why an instruction is not lifted. -/
inductive LiftError
  /-- The instruction makes no sense. -/
  | instruction (cause : InstructionError)
  /-- The override of an extension cannot be placed. -/
  | store (cause : StoreError)
deriving DecidableEq

/-- The wording of a lift error. -/
def LiftError.message : LiftError → String
  | instruction cause => cause.message
  | store cause => cause.message

/-- The lifted form of an instruction. -/
structure Lifted where
  /-- The length of the instruction in bytes. -/
  length : Int
  /-- The statements, in order. -/
  code : List Stmt
deriving DecidableEq

/-- What is lifted for and how. -/
structure Lifter where
  /-- The variant. -/
  variant : Variant
  /-- Whether every instruction is reported before it is lifted. -/
  trace : Bool
deriving DecidableEq

/-- The overrides that an extension places, in the order in which they are placed. -/
def Extension.overlays (ext : Extension) : List Overlay :=
  let value := ext.value.getD 0
  (if ext.kind = .atomic then [.atomic] else [])
    ++ (if ext.kind.hasRegisterBank then [.registerBank] else [])
    ++ (if ext.kind.hasSegment then [.segment value] else [])
    ++ (if ext.kind.hasPage then [.page value] else [])

/-- The lifted form of an instruction that is no extension. It reads the store and does not change it. -/
def emit (v : Variant) (s : Store) (addr : Int) (i : Instruction) : Except InstructionError (List Stmt) :=
  match i.family with
  | .alu => liftAlu s addr i
  | .cmpStep => liftCmpStep s addr i
  | .unary => liftUnary i
  | .mul => liftMul i
  | .div => liftDiv i
  | .shift => liftShift s addr i
  | .prior => liftPrior i
  | .bit => liftBit s addr i
  | .bitLogic => liftBitLogic s addr i
  | .bitField => .ok [.unimplemented]
  | .bitJump => liftBitJump s addr i
  | .jump => liftJump addr i
  | .call => liftCall addr i
  | .ret => liftRet v s addr i
  | .trap => liftTrap i
  | .system => .ok [if i.operation = some .noreturn then .noReturn else .unimplemented]
  | .nop => .ok [.nop]
  | .stack => liftStack s addr i
  | .scxt => liftScxt s addr i
  | .move => liftMove v s addr i
  | .moveExt => liftMoveExt s addr i
  | .ext => .error (.unknownFamily Family.ext.name)
  | .named name => .error (.unknownFamily name)

/-- Lifts an extension instruction. An override whose value is in a register is not known, and nothing is
placed. -/
def liftExtension (s : Store) (addr : Int) (i : Instruction) : Outcome LiftError Lifted :=
  match i.operand .ext with
  | .error e => ⟨.error (.instruction e), s, []⟩
  | .ok (.extension ext) =>
    match ext.register with
    | some _ => ⟨.ok ⟨i.length, [.unimplemented]⟩, s, []⟩
    | none =>
      let next := addr + i.length
      match s.placeAll next (ext.count - 1) ext.overlays with
      | (.ok (), placed) => ⟨.ok ⟨i.length, [.nop]⟩, placed, [.extended i.mnemonic addr next ext.count]⟩
      | (.error e, placed) => ⟨.error (.store e), placed, []⟩
  | .ok _ => ⟨.error (.instruction .mismatch), s, []⟩

/-- Lifts an instruction that is no extension. -/
def liftPlain (v : Variant) (s : Store) (addr : Int) (i : Instruction) : Outcome LiftError Lifted :=
  match emit v s addr i with
  | .ok code => ⟨.ok ⟨i.length, code⟩, (s.propagate addr i.length).2, []⟩
  | .error e => ⟨.error (.instruction e), s, []⟩

/-- Lifts the instruction at an address. -/
def Lifter.lift (l : Lifter) (s : Store) (i : Instruction) (addr : Int) : Outcome LiftError Lifted :=
  let traced := if l.trace then [Event.lifting addr i] else []
  let outcome :=
    match i.family with
    | .ext => liftExtension s addr i
    | _ => liftPlain l.variant s addr i
  { outcome with events := traced ++ outcome.events }

end Lift166
