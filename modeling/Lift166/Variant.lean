import Lift166.Machine.Register

/-!
# CPU variants

What differs between the supported toolchains: the register that serves as stack pointer, whether the return
address is kept in a register, and the calling convention.
-/

namespace Lift166

/-- Where a calling convention keeps arguments and results, and which registers it preserves. -/
structure CallingConvention where
  /-- The name of the convention. -/
  name : String
  /-- The registers of integer arguments. -/
  intArgs : List Register
  /-- The registers that a caller has to save. -/
  callerSaved : List Register
  /-- The registers that a callee has to save. -/
  calleeSaved : List Register
  /-- The register of an integer result. -/
  intReturn : Register
  /-- The register of the upper half of a long result. -/
  highIntReturn : Option Register
  /-- Whether stack space is kept for arguments in registers. -/
  stackReserved : Bool
deriving DecidableEq

/-- A supported toolchain. -/
structure Variant where
  /-- The name of the variant. -/
  name : String
  /-- The register that serves as stack pointer. -/
  stackPointer : Register
  /-- The calling convention. -/
  convention : CallingConvention
  /-- The register that holds the return address, if one does. -/
  linkRegister : Option Register
  /-- A description for people. -/
  description : String
deriving DecidableEq

/-- A word register and the byte registers that are its halves. -/
def withHalves (index : Nat) : List Register :=
  if index < 8 then [.wordAt index, .byteAt (2 * index : Nat), .byteAt (2 * index + 1 : Nat)]
  else [.wordAt index]

/-- The convention of the VX toolchain. -/
def vxConvention : CallingConvention :=
  { name := "c166-vx"
    intArgs := [2, 3, 4, 5].map .wordAt
    callerSaved := [2, 3, 4, 5, 11, 12, 13, 14].flatMap withHalves
    calleeSaved := [0, 1, 6, 7, 8, 9, 10].flatMap withHalves
    intReturn := .wordAt 2
    highIntReturn := none
    stackReserved := false }

/-- The convention of the classic toolchain. -/
def classicConvention : CallingConvention :=
  { name := "c166-classic"
    intArgs := [12, 13, 14, 15].map .wordAt
    callerSaved := [1, 2, 3, 4, 5, 10, 11].flatMap withHalves
    calleeSaved := [6, 7, 8, 9, 10].flatMap withHalves
    intReturn := .wordAt 4
    highIntReturn := some (.wordAt 5)
    stackReserved := false }

/-- The convention of the v2 toolchain. -/
def v2Convention : CallingConvention :=
  { name := "c166-v2"
    intArgs := [8, 9, 10, 11, 12].map .wordAt
    callerSaved := [1, 2, 3, 4, 5, 6, 7, 8, 9, 10, 11, 12].flatMap withHalves
    calleeSaved := [13, 14, 15].map .wordAt
    intReturn := .wordAt 4
    highIntReturn := some (.wordAt 5)
    stackReserved := true }

namespace Variant

/-- The VX toolchain. -/
def tvx : Variant :=
  { name := "c166tvx", stackPointer := .wordAt 15, convention := vxConvention, linkRegister := none,
    description := "Tasking C166/ST10 VX toolchain" }

/-- The classic toolchain. -/
def tc : Variant :=
  { name := "c166tc", stackPointer := .wordAt 0, convention := classicConvention, linkRegister := none,
    description := "Tasking C166/ST10 classic toolchain" }

/-- The v2 toolchain, which keeps the return address in a register. -/
def v2 : Variant :=
  { name := "c166v2", stackPointer := .wordAt 0, convention := v2Convention, linkRegister := some .lr,
    description := "Tasking C166/ST10 v2 toolchain" }

/-- The variants in the order in which a host learns of them. -/
def all : List Variant := [tvx, tc, v2]

/-- The names of the variants in alphabetical order. -/
def names : List String := [tc.name, tvx.name, v2.name]

/-- The variant of a name. -/
def ofName? (name : String) : Option Variant :=
  all.find? fun v => v.name == name

/-- The wording for a name that no variant has. -/
def unknownMessage (name : String) : String :=
  "Unknown C166 variant '" ++ name ++ "' (expected one of: ["
    ++ ", ".intercalate (names.map fun n => "'" ++ n ++ "'") ++ "])"

end Variant

end Lift166
