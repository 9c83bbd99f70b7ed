import Lift166.Machine.Flag
import Lift166.Variant

/-!
# Architectures

What a host is told about a variant: its registers and how they overlap, its flags and flag policies, its stack
pointer and its calling convention.
-/

namespace Lift166

/-- A register as a part of a full register. -/
structure RegisterInfo where
  /-- The register described. -/
  register : Register
  /-- The register that it is a part of. -/
  full : Register
  /-- Its size in bytes. -/
  size : Nat
  /-- Where it starts in the full register, in bytes. -/
  offset : Nat
deriving DecidableEq

/-- The registers of a variant. The virtual link register is one of them only where it is used. -/
def Variant.registers (v : Variant) : List RegisterInfo :=
  (Register.words.map fun r => ⟨r, r, 2, 0⟩)
    ++ ((List.finRange 16).map fun i =>
      ⟨.byte i, .word ⟨i.val / 2, by omega⟩, 1, i.val % 2⟩)
    ++ (Register.system.filter (· != .lr)).map (fun r => ⟨r, r, 2, 0⟩)
    ++ (if v.linkRegister.isSome then [⟨.lr, .lr, 3, 0⟩] else [])

/-- A host's description of a variant. -/
structure Architecture where
  /-- The variant described. -/
  variant : Variant
  /-- The name of the description itself. -/
  className : String
  /-- The byte order. -/
  endianness : String
  /-- The size of an address in bytes. -/
  addressSize : Nat
  /-- The size of an integer in bytes. -/
  intSize : Nat
  /-- The length of the longest instruction. -/
  maxLength : Nat
  /-- What instruction addresses are multiples of. -/
  alignment : Nat
  /-- The registers. -/
  registers : List RegisterInfo
  /-- The flags. -/
  flags : List Flag
  /-- The flag policies. -/
  policies : List FlagPolicy
deriving DecidableEq

/-- The architecture of a variant. -/
def Variant.architecture (v : Variant) : Architecture :=
  { variant := v
    className := "C166Architecture_" ++ v.name
    endianness := "LittleEndian"
    addressSize := 3
    intSize := 2
    maxLength := 4
    alignment := 2
    registers := v.registers
    flags := Flag.all
    policies := FlagPolicy.known }

/-- The name under which a calling convention is described to a host. -/
def CallingConvention.className (c : CallingConvention) : String :=
  "C166CallingConvention_" ++ String.ofList (c.name.toList.map fun ch => if ch == '-' then '_' else ch)

/-- The architectures with their calling conventions, in the order in which a host learns of them. The convention
becomes the default one of its architecture. -/
def registrations : List (Architecture × CallingConvention) :=
  Variant.all.map fun v => (v.architecture, v.convention)

/-- The number of each register. -/
def registerNumbers : List (Register × Nat) :=
  Register.all.zipIdx

end Lift166
