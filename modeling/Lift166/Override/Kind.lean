/-!
# Kinds of override

The set of override kinds in force at an address. Its persistent form is one byte, with a bit for each of the
five kinds; the three upper bits have no meaning and are kept as they are found.
-/

namespace Lift166

/-- The kinds of override in force at an address. -/
structure KindSet where
  /-- Short addresses mean the extended register bank. -/
  register : Bool
  /-- Memory operands are taken from a segment. -/
  segment : Bool
  /-- Memory operands are taken from a page. -/
  page : Bool
  /-- The instruction belongs to an uninterruptible sequence. -/
  atomic : Bool
  /-- Memory operands use data page pointers of their own. -/
  customDpp : Bool
  /-- The upper bits of the persistent byte. -/
  reserved : Fin 8
deriving DecidableEq

namespace KindSet

/-- No kind. -/
def none : KindSet := ⟨false, false, false, false, false, 0⟩

/-- The extended register bank alone. -/
def registerOnly : KindSet := { none with register := true }

/-- The segment alone. -/
def segmentOnly : KindSet := { none with segment := true }

/-- The page alone. -/
def pageOnly : KindSet := { none with page := true }

/-- The uninterruptible sequence alone. -/
def atomicOnly : KindSet := { none with atomic := true }

/-- Custom data page pointers alone. -/
def customDppOnly : KindSet := { none with customDpp := true }

/-- All kinds of either set. -/
def union (a b : KindSet) : KindSet :=
  { register := a.register || b.register
    segment := a.segment || b.segment
    page := a.page || b.page
    atomic := a.atomic || b.atomic
    customDpp := a.customDpp || b.customDpp
    reserved := a.reserved ||| b.reserved }

/-- The kinds that run on from instruction to instruction. -/
def spanned (k : KindSet) : KindSet :=
  { k with customDpp := false, reserved := 0 }

/-- Whether some kind that runs on is present. -/
def hasSpanned (k : KindSet) : Bool :=
  k.register || k.segment || k.page || k.atomic

/-- The value of a bit. -/
def bitValue (weight : Nat) (b : Bool) : Nat :=
  if b then weight else 0

/-- The persistent byte. -/
def toByte (k : KindSet) : Nat :=
  bitValue 0x01 k.register + bitValue 0x02 k.segment + bitValue 0x04 k.page + bitValue 0x08 k.atomic
    + bitValue 0x10 k.customDpp + 0x20 * k.reserved.val

/-- The set of a persistent byte. -/
def ofByte (byte : Fin 256) : KindSet :=
  { register := byte.val % 2 == 1
    segment := byte.val / 2 % 2 == 1
    page := byte.val / 4 % 2 == 1
    atomic := byte.val / 8 % 2 == 1
    customDpp := byte.val / 16 % 2 == 1
    reserved := ⟨byte.val / 32, by omega⟩ }

/-- Whether the set shares a bit with a mask. -/
def meets (k : KindSet) (mask : Nat) : Bool :=
  k.toByte &&& mask != 0

/-- The kinds of the set by name, in the order of their bits. -/
def names (k : KindSet) : List String :=
  (if k.register then ["REGISTER"] else []) ++ (if k.segment then ["SEGMENT"] else [])
    ++ (if k.page then ["PAGE"] else []) ++ (if k.atomic then ["ATOMIC"] else [])
    ++ (if k.customDpp then ["CUSTOM_DPP"] else [])

theorem toByte_lt (k : KindSet) : k.toByte < 256 := by
  have := k.reserved.isLt
  unfold toByte bitValue
  repeat' split
  all_goals omega

end KindSet

end Lift166
