import Lift166.Number.Text

/-!
# Condition codes

The sixteen conditions of a conditional branch, numbered as they are encoded.
-/

namespace Lift166

/-- A condition code. -/
inductive Condition
  | uc | net | z | nz | v | nv | n | nn | ult | uge | sgt | sle | slt | sge | ugt | ule
deriving DecidableEq

namespace Condition

/-- The conditions in encoding order. -/
def all : List Condition :=
  [uc, net, z, nz, v, nv, n, nn, ult, uge, sgt, sle, slt, sge, ugt, ule]

/-- The encoding of a condition. -/
def number : Condition → Nat
  | uc => 0 | net => 1 | z => 2 | nz => 3 | v => 4 | nv => 5 | n => 6 | nn => 7
  | ult => 8 | uge => 9 | sgt => 10 | sle => 11 | slt => 12 | sge => 13 | ugt => 14 | ule => 15

/-- The capital letters of a condition. -/
def name : Condition → String
  | uc => "UC" | net => "NET" | z => "Z" | nz => "NZ" | v => "V" | nv => "NV" | n => "N" | nn => "NN"
  | ult => "ULT" | uge => "UGE" | sgt => "SGT" | sle => "SLE" | slt => "SLT" | sge => "SGE"
  | ugt => "UGT" | ule => "ULE"

/-- A condition as a listing writes it. -/
def text : Condition → String
  | uc => "cc_uc" | net => "cc_net" | z => "cc_z" | nz => "cc_nz" | v => "cc_v" | nv => "cc_nv"
  | n => "cc_n" | nn => "cc_nn" | ult => "cc_ult" | uge => "cc_uge" | sgt => "cc_sgt" | sle => "cc_sle"
  | slt => "cc_slt" | sge => "cc_sge" | ugt => "cc_ugt" | ule => "cc_ule"

/-- The condition that a four-bit field encodes. -/
def ofNibble (nibble : Fin 16) : Condition :=
  match nibble.val with
  | 0 => uc | 1 => net | 2 => z | 3 => nz | 4 => v | 5 => nv | 6 => n | 7 => nn
  | 8 => ult | 9 => uge | 10 => sgt | 11 => sle | 12 => slt | 13 => sge | 14 => ugt | _ => ule

end Condition

/-- Why a number names no testable condition. -/
inductive ConditionError
  /-- The number is no encoding. -/
  | notACondition (number : Int)
  /-- The condition always holds, so there is nothing to test. -/
  | nothingToTest (cond : Condition)
deriving DecidableEq

/-- The wording of a condition error. -/
def ConditionError.message : ConditionError → String
  | notACondition number => decimal number ++ " is not a valid Cond"
  | nothingToTest cond => "<Cond." ++ cond.name ++ ": " ++ decimal cond.number ++ ">"

/-- The condition of a number, if it is an encoding. -/
def Condition.ofNumber (number : Int) : Except ConditionError Condition :=
  if h : 0 ≤ number ∧ number < 16 then .ok (ofNibble ⟨number.toNat, by omega⟩)
  else .error (.notACondition number)

end Lift166
