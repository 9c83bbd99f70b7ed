import Lift166.Number.Bits
import Lift166.Number.Text

/-!
# Registers

The word registers `r0` to `r15`, the sixteen byte registers that are the halves of `r0` to `r7`, and the system
registers the lifter speaks of. `lr` is no hardware register: it stands for the return address where a calling
convention keeps that in a register. A listing may also carry a name outside this set; it is kept as it is.
-/

namespace Lift166

/-- A register, by what it is. -/
inductive Register
  /-- A general purpose word register. -/
  | word (index : Fin 16)
  /-- A byte register: even indices are the low halves of `r0`, `r1`, ..., odd ones the high halves. -/
  | byte (index : Fin 16)
  /-- Code segment pointer. -/
  | csp
  /-- First CPU configuration register. -/
  | cpucon1
  /-- Second CPU configuration register. -/
  | cpucon2
  /-- Processor status word. -/
  | psw
  /-- Context pointer. -/
  | cp
  /-- The virtual link register. -/
  | lr
  /-- A name outside the register set. -/
  | named (name : String)
deriving DecidableEq

namespace Register

/-- The name a listing shows. -/
def name : Register → String
  | word i => "r" ++ decimal i.val
  | byte i => (if i.val % 2 = 0 then "rl" else "rh") ++ decimal ((i.val / 2 : Nat) : Int)
  | csp => "csp"
  | cpucon1 => "cpucon1"
  | cpucon2 => "cpucon2"
  | psw => "psw"
  | cp => "cp"
  | lr => "lr"
  | named name => name

/-- The word registers. -/
def words : List Register :=
  (List.finRange 16).map word

/-- The byte registers. -/
def bytes : List Register :=
  (List.finRange 16).map byte

/-- The system registers. -/
def system : List Register :=
  [csp, cpucon1, cpucon2, psw, cp, lr]

/-- Every register of the set; a register's number is its place here. -/
def all : List Register :=
  words ++ bytes ++ system

/-- The register of a name. -/
def ofName (text : String) : Register :=
  match all.find? (fun r => r.name == text) with
  | some r => r
  | none => named text

/-- The word register selected by the low four bits of a field. -/
def wordAt (field : Int) : Register :=
  word (Fin.ofNat 16 (lowBits 4 field))

/-- The byte register selected by the low four bits of a field. -/
def byteAt (field : Int) : Register :=
  byte (Fin.ofNat 16 (lowBits 4 field))

/-- The register that a four-bit field selects for an operand of `width` bytes. -/
def ofField (field : Int) (width : Nat) : Register :=
  if width = 1 then byteAt field else wordAt field

end Register

end Lift166
