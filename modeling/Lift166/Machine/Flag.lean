/-!
# Flags and flag policies

The five flags of the status word, and the policies by which an instruction says which of them it writes.
-/

namespace Lift166

/-- A condition flag, in status word order. -/
inductive Flag
  /-- Negative. -/
  | n
  /-- Carry. -/
  | c
  /-- Overflow. -/
  | v
  /-- Zero. -/
  | z
  /-- End of table. -/
  | e
deriving DecidableEq

namespace Flag

/-- The flags in status word order. -/
def all : List Flag := [n, c, v, z, e]

/-- The letter of a flag. -/
def name : Flag → String
  | n => "n"
  | c => "c"
  | v => "v"
  | z => "z"
  | e => "e"

/-- The role a host gives to a flag. -/
def role : Flag → String
  | n => "NegativeSignFlagRole"
  | c => "CarryFlagRole"
  | v => "OverflowFlagRole"
  | z => "ZeroFlagRole"
  | e => "SpecialFlagRole"

end Flag

/-- Which flags a result is to update. -/
inductive FlagPolicy
  /-- All five flags. -/
  | all
  /-- The zero flag. -/
  | zero
  /-- The flags a data movement sets. -/
  | ezn
  /-- A policy known by name only. -/
  | named (name : String)
deriving DecidableEq

namespace FlagPolicy

/-- The policies with a fixed meaning. -/
def known : List FlagPolicy := [all, zero, ezn]

/-- The name of a policy. -/
def name : FlagPolicy → String
  | all => "*"
  | zero => "z"
  | ezn => "ezn"
  | named name => name

/-- The policy of a name. -/
def ofName (text : String) : FlagPolicy :=
  match known.find? (fun p => p.name == text) with
  | some p => p
  | none => named text

/-- The flags that a policy writes. -/
def flags : FlagPolicy → List Flag
  | all => Flag.all
  | zero => [.z]
  | ezn => [.e, .z, .n]
  | named _ => []

end FlagPolicy

end Lift166
